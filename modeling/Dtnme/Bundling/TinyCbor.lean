import Dtnme.Library.Cbor
import Dtnme.Library.Decoder

/-! # The CBOR parser

The cursor of tinycbor. An item's head is parsed when the cursor comes to it, not when it is
read, so that stepping over an item asks for the head of the next one of the array. The end of
the input is told apart from an error; asserted conditions that fail abort.
-/

namespace Dtnme.Bundling.TinyCbor
open Library Decoder

/-- Ends for good: `BP_FAIL`, or a failed assertion. -/
inductive Failure
  | fail
  | abort
  deriving DecidableEq, Repr

abbrev Decode (ω α : Type) := Decoder UInt8 Failure ω α

inductive CborType
  | integer
  | negativeInteger
  | byteString
  | textString
  | array
  | map
  | tag
  | simple
  | invalid
  deriving DecidableEq, Repr

def CborType.ofMajor : ℕ → CborType
  | 0 => .integer
  | 1 => .negativeInteger
  | 2 => .byteString
  | 3 => .textString
  | 4 => .array
  | 5 => .map
  | 6 => .tag
  | _ => .simple

def CborType.isFixedType : CborType → Bool
  | .byteString | .textString | .array | .map => false
  | _ => true

def CborType.isContainer : CborType → Bool
  | .array | .map => true
  | _ => false

def CborType.isString : CborType → Bool
  | .byteString | .textString => true
  | _ => false

/-- A cursor at an item with a parsed head: its number, and how many bytes of the number follow the
first byte. At the end of an array the type is `invalid`. -/
structure CborValue where
  ptr : ℕ
  remaining : ℕ
  type : CborType
  unknownLength : Bool
  value : ℕ
  follows : ℕ
  deriving DecidableEq, Repr

namespace CborValue

def atEnd (ptr : ℕ) : CborValue := ⟨ptr, 0, .invalid, false, 0, 0⟩

/-- Behind the head. -/
def behind (cv : CborValue) : ℕ := cv.ptr + cv.follows + 1

/-- How far the buffer was looked at. -/
def extent (cv : CborValue) : ℕ := if cv.type = .invalid then cv.ptr else cv.behind

end CborValue

def breakByte : UInt8 := 0xff

def uint32Max : ℕ := 2 ^ 32 - 1

/-- What `preparse_value` makes of the bytes at the cursor. -/
def preparseBytes (ptr remaining : ℕ) (bytes : List UInt8) : Ending Failure CborValue :=
  match bytes with
  | [] => .more
  | b :: rest =>
    let type := CborType.ofMajor (b.toNat / 32)
    if b.toNat % 32 = 31 ∧ type.isFixedType = false then .done ⟨ptr, remaining, type, true, 0, 0⟩
    else
      match Cbor.readHead (b :: rest) with
      | .more => .more
      | .bad => .stop .fail
      | .done (_, value) tail =>
        if type = .simple ∧ b.toNat % 32 = 24 ∧ value < 32 then .stop .fail
        else .done ⟨ptr, remaining, type, false, value, rest.length - tail.length⟩

section
variable {ω : Type}

def preparseValue (ptr remaining : ℕ) : Decode ω CborValue := fun buf =>
  ([], preparseBytes ptr remaining (buf.drop ptr))

/-- `preparse_next_value_nodecrement`; no map is stepped through, so its flags are left out. -/
def preparseNextValueNodecrement (ptr remaining : ℕ) : Decode ω CborValue := fun buf =>
  if remaining = uint32Max ∧ buf[ptr]? = some breakByte then ([], .done (.atEnd (ptr + 1)))
  else preparseValue ptr remaining buf

/-- `preparse_next_value` for a cursor moved to `ptr`. -/
def preparseNextValue (it : CborValue) (ptr : ℕ) : Decode ω CborValue :=
  if it.type = .tag ∨ it.remaining = uint32Max then preparseNextValueNodecrement ptr it.remaining
  else if it.remaining - 1 = 0 then pure (.atEnd ptr)
  else preparseNextValueNodecrement ptr (it.remaining - 1)

/-- `cbor_parser_init`. -/
def cborParserInit : Decode ω CborValue := preparseValue 0 1

/-- `cbor_value_advance_fixed`. -/
def advanceFixed (it : CborValue) : Decode ω CborValue :=
  if it.type = .invalid ∨ it.type.isFixedType = false then fail .abort
  else preparseNextValue it it.behind

/-- `cbor_value_enter_container`. -/
def enterContainer (it : CborValue) : Decode ω CborValue :=
  if it.type.isContainer = false then fail .abort
  else if it.unknownLength then preparseNextValueNodecrement it.behind uint32Max
  else if uint32Max ≤ it.value then fail .fail
  else if it.type = .map ∧ uint32Max / 2 < it.value then fail .fail
  else if it.value = 0 then pure (.atEnd it.behind)
  else preparseNextValueNodecrement it.behind (if it.type = .map then 2 * it.value else it.value)

/-- `cbor_value_leave_container`. -/
def leaveContainer (it recursed : CborValue) : Decode ω CborValue :=
  if it.type.isContainer ∧ recursed.type = .invalid then preparseNextValue it recursed.ptr
  else fail .abort

/-- The chunks of a string without a known length, up to its break. -/
def stringChunks (type : CborType) (bytes : List UInt8) : Outcome UInt8 (List UInt8) :=
  match bytes with
  | [] => .more
  | b :: rest =>
    if b = breakByte then .done [] rest
    else if CborType.ofMajor (b.toNat / 32) = type then
      match _h : Cbor.readHead (b :: rest) with
      | .more => .more
      | .bad => .bad
      | .done (_, len) tail =>
        if tail.length < len then .more
        else
          match stringChunks type (tail.drop len) with
          | .done s behind => .done (tail.take len ++ s) behind
          | .more => .more
          | .bad => .bad
    else .bad
termination_by bytes.length
decreasing_by
  obtain ⟨n, hn, _, rfl, _⟩ := Cbor.readHead_eq_done _h
  rw [List.length_drop, List.length_drop, List.length_cons]
  omega

/-- The characters of a string and the place behind it. -/
def stringAt (it : CborValue) : Decode ω (List UInt8 × ℕ) := fun buf =>
  if it.unknownLength then
    match stringChunks it.type (buf.drop it.behind) with
    | .done s rest => ([], .done (s, buf.length - rest.length))
    | .more => ([], .more)
    | .bad => ([], .stop .fail)
  else if it.behind + it.value ≤ buf.length then
    ([], .done (slice buf it.behind it.value, it.behind + it.value))
  else ([], .more)

/-- `cbor_value_dup_byte_string` and `cbor_value_dup_text_string`. -/
def dupString (it : CborValue) : Decode ω (List UInt8 × CborValue) := do
  let (s, ptr) ← stringAt it
  let next ← preparseNextValue it ptr
  pure (s, next)

/-! ## Fields of a block -/

def dataAvailableToParse (it : CborValue) (len : ℕ) : Decode ω Unit := fun buf =>
  if it.ptr + len ≤ buf.length then ([], .done ()) else ([], .more)

/-- The number at the cursor, and the cursor behind it. -/
def decodeUint (it : CborValue) : Decode ω (ℕ × CborValue) := do
  dataAvailableToParse it 1
  if it.type = .integer then
    let next ← advanceFixed it
    pure (it.value, next)
  else fail .fail

/-- The length of an array, which the cursor stays in front of. -/
def validateCborFixedArrayLength (it : CborValue) (minLen maxLen : ℕ) : Decode ω ℕ := do
  dataAvailableToParse it 1
  if it.type ≠ .array ∨ it.unknownLength then fail .fail
  else if it.value < minLen ∨ maxLen < it.value then fail .fail
  else pure it.value

end

/-! ## The cursor reads from item to item -/

theorem preparseBytes_done {ptr remaining : ℕ} {bytes : List UInt8} {cv : CborValue}
    (h : preparseBytes ptr remaining bytes = .done cv) :
    cv.ptr = ptr ∧ cv.remaining = remaining ∧ cv.type ≠ .invalid ∧ cv.follows + 1 ≤ bytes.length ∧
      ∀ later, preparseBytes ptr remaining (bytes.take (cv.follows + 1) ++ later) = .done cv := by
  have hvalid : ∀ n, CborType.ofMajor n ≠ .invalid := by
    intro n
    unfold CborType.ofMajor
    split <;> simp
  cases bytes with
  | nil => simp [preparseBytes] at h
  | cons b rest =>
    rw [preparseBytes] at h
    by_cases hopen : b.toNat % 32 = 31 ∧ (CborType.ofMajor (b.toNat / 32)).isFixedType = false
    · simp only [if_pos hopen] at h
      obtain rfl := Ending.done.inj h
      refine ⟨rfl, rfl, hvalid _, by simp, fun later => ?_⟩
      change preparseBytes ptr remaining (b :: (rest.take 0 ++ later)) = _
      rw [preparseBytes]
      exact if_pos hopen
    simp only [if_neg hopen] at h
    rcases hread : Cbor.readHead (b :: rest) with ⟨⟨_, value⟩, tail⟩ | _ | _
    · simp only [hread] at h
      by_cases hsimple : CborType.ofMajor (b.toNat / 32) = .simple ∧ b.toNat % 32 = 24 ∧ value < 32
      · simp [if_pos hsimple] at h
      rw [if_neg hsimple] at h
      obtain rfl := Ending.done.inj h
      obtain ⟨n, hn, hle, rfl, hlocal⟩ := Cbor.readHead_eq_done hread
      have hfollows : rest.length - ((b :: rest).drop n).length = n - 1 := by
        rw [List.length_drop, List.length_cons]
        rw [List.length_cons] at hle
        omega
      refine ⟨rfl, rfl, hvalid _, ?_, fun later => ?_⟩
      · change rest.length - ((b :: rest).drop n).length + 1 ≤ _
        omega
      · change preparseBytes ptr remaining
          ((b :: rest).take (rest.length - ((b :: rest).drop n).length + 1) ++ later) = _
        obtain ⟨k, rfl⟩ : ∃ k, n = k + 1 := ⟨n - 1, by omega⟩
        have hread' := hlocal later
        rw [hfollows, Nat.add_sub_cancel, List.take_succ_cons, List.cons_append, preparseBytes]
        rw [List.take_succ_cons, List.cons_append] at hread'
        simp only [if_neg hopen, hread', if_neg hsimple]
        congr 2
        rw [List.length_append, List.length_take]
        rw [List.length_cons] at hle
        omega
    · simp [hread] at h
    · simp [hread] at h

theorem preparseBytes_stop {ptr remaining : ℕ} {bytes : List UInt8} {e : Failure}
    (h : preparseBytes ptr remaining bytes = .stop e) (later : List UInt8) :
    preparseBytes ptr remaining (bytes ++ later) = .stop e := by
  cases bytes with
  | nil => simp [preparseBytes] at h
  | cons b rest =>
    rw [preparseBytes] at h
    rw [List.cons_append, preparseBytes]
    by_cases hopen : b.toNat % 32 = 31 ∧ (CborType.ofMajor (b.toNat / 32)).isFixedType = false
    · simp [if_pos hopen] at h
    simp only [if_neg hopen] at h ⊢
    rcases hread : Cbor.readHead (b :: rest) with ⟨⟨_, value⟩, tail⟩ | _ | _
    · simp only [hread] at h
      by_cases hsimple : CborType.ofMajor (b.toNat / 32) = .simple ∧ b.toNat % 32 = 24 ∧ value < 32
      · rw [if_pos hsimple] at h
        obtain ⟨n, _, hle, _, hlocal⟩ := Cbor.readHead_eq_done hread
        have hread' := hlocal ((b :: rest).drop n ++ later)
        rw [← List.append_assoc, List.take_append_drop, List.cons_append] at hread'
        simp only [hread', if_pos hsimple]
        exact h
      · simp [if_neg hsimple] at h
    · simp [hread] at h
    · have hread' := Cbor.readHead_append_bad hread later
      rw [List.cons_append] at hread'
      simp only [hread] at h
      simp only [hread']
      exact h

/-- What the cursor says of the bytes. -/
theorem preparseBytes_inv {ptr remaining : ℕ} {bytes : List UInt8} {cv : CborValue}
    (h : preparseBytes ptr remaining bytes = .done cv) :
    (cv.unknownLength = true ∧ cv.type.isFixedType = false ∧ cv.follows = 0 ∧
      ∃ b rest, bytes = b :: rest ∧ b.toNat % 32 = 31) ∨
    (cv.unknownLength = false ∧ ∃ major, cv.type = .ofMajor major ∧
      Cbor.readHead bytes = .done (major, cv.value) (bytes.drop (cv.follows + 1))) := by
  cases bytes with
  | nil => simp [preparseBytes] at h
  | cons b rest =>
    rw [preparseBytes] at h
    by_cases hopen : b.toNat % 32 = 31 ∧ (CborType.ofMajor (b.toNat / 32)).isFixedType = false
    · simp only [if_pos hopen] at h
      obtain rfl := Ending.done.inj h
      exact .inl ⟨rfl, hopen.2, rfl, b, rest, rfl, hopen.1⟩
    simp only [if_neg hopen] at h
    rcases hread : Cbor.readHead (b :: rest) with ⟨⟨major, value⟩, tail⟩ | _ | _
    · simp only [hread] at h
      by_cases hsimple : CborType.ofMajor (b.toNat / 32) = .simple ∧ b.toNat % 32 = 24 ∧ value < 32
      · simp [if_pos hsimple] at h
      rw [if_neg hsimple] at h
      obtain rfl := Ending.done.inj h
      obtain ⟨n, hn, hle, rfl, _⟩ := Cbor.readHead_eq_done hread
      refine .inr ⟨rfl, major, ?_, ?_⟩
      · rw [Cbor.readHead_major hread]
      · congr 2
        change n = rest.length - ((b :: rest).drop n).length + 1
        rw [List.length_drop]
        rw [List.length_cons] at hle ⊢
        omega
    · simp [hread] at h
    · simp [hread] at h

/-- The cursor stands where the bytes go on in shortest form, and its head is the one there. -/
def Sound (buf : List UInt8) (cv : CborValue) : Prop :=
  Cbor.ShortForm (buf.drop cv.ptr) ∧
    (cv.type ≠ .invalid → preparseBytes cv.ptr cv.remaining (buf.drop cv.ptr) = .done cv)

theorem Sound.atEnd {buf : List UInt8} {ptr : ℕ} (h : Cbor.ShortForm (buf.drop ptr)) :
    Sound buf (.atEnd ptr) :=
  ⟨h, fun hne => absurd rfl hne⟩

/-- Behind the head of what is not a string, or of a string in chunks. -/
theorem Sound.behind {buf : List UInt8} {cv : CborValue} (h : Sound buf cv)
    (hvalid : cv.type ≠ .invalid) (hs : cv.type.isString = false ∨ cv.unknownLength = true) :
    Cbor.ShortForm (buf.drop cv.behind) := by
  have hdrop : buf.drop cv.behind = (buf.drop cv.ptr).drop (cv.follows + 1) := by
    rw [List.drop_drop, CborValue.behind, Nat.add_assoc]
  rw [hdrop]
  obtain ⟨_, _, hf, b, rest, hb, hmark⟩ | ⟨hknown, major, htype, hread⟩ :=
    preparseBytes_inv (h.2 hvalid)
  · rw [hf, hb]
    exact Cbor.ShortForm.of_marker (hb ▸ h.1) hmark
  · apply (h.1.of_head hread).2.2
    have hitem : cv.type.isString = false := hs.resolve_right (by simp [hknown])
    constructor <;> rintro rfl <;> simp [htype, CborType.ofMajor, CborType.isString] at hitem

/-- The first bytes behind a place, of buffers that agree that far. -/
theorem take_drop_of_take {α : Type} {l l' : List α} {p k n : ℕ} (h : l'.take n = l.take n)
    (hn : p + k ≤ n) : (l'.drop p).take k = (l.drop p).take k := by
  have hk := congrArg (fun x => (x.drop p).take k) h
  simp only [List.drop_take, List.take_take] at hk
  rwa [min_eq_left (by omega)] at hk

section
variable {ω : Type} {Fine : List UInt8 → ω → Prop}

/-- Readers of cursors. -/
abbrev Moves {α : Type} (Fine : List UInt8 → ω → Prop) (d : Decode ω α) (m : CborValue)
    (next : α → CborValue) : Prop := Reads CborValue.extent Sound Fine d m next

theorem preparseValue_moves (ptr remaining : ℕ) :
    Moves Fine (preparseValue ptr remaining) (.atEnd ptr) id where
  done := by
    intro buf log cv hm h
    obtain ⟨rfl, hend⟩ := Prod.mk.inj h
    obtain ⟨hptr, hrem, hvalid, hlen, hlocal⟩ := preparseBytes_done hend
    have hext : cv.extent = ptr + (cv.follows + 1) := by
      rw [CborValue.extent, if_neg hvalid, CborValue.behind, hptr, Nat.add_assoc]
    rw [List.length_drop] at hlen
    refine ⟨?_, ?_, ?_, ?_⟩
    · change ptr ≤ cv.extent
      omega
    · change cv.extent ≤ _
      omega
    · intro buf' hlen' heq
      change cv.extent ≤ _ at hlen'
      change buf'.take cv.extent = buf.take cv.extent at heq
      rw [hext] at hlen' heq
      have hl := hlocal ((buf'.drop ptr).drop (cv.follows + 1))
      rw [← take_drop_of_take heq le_rfl, List.take_append_drop] at hl
      rw [preparseValue, hl]
    · intro hi
      refine ⟨⟨?_, fun _ => ?_⟩, by simp⟩
      · change Cbor.ShortForm (buf.drop cv.ptr)
        rw [hptr]
        exact hi.1
      · change preparseBytes cv.ptr cv.remaining (buf.drop cv.ptr) = _
        rw [hptr, hrem]
        exact hend
  stop := by
    intro buf log e later hm h
    obtain ⟨rfl, hend⟩ := Prod.mk.inj h
    have hptr : ptr ≤ buf.length := hm
    rw [preparseValue, List.drop_append_of_le_length hptr, preparseBytes_stop hend]
  more := by
    intro buf log later hm h
    obtain ⟨rfl, _⟩ := Prod.mk.inj h
    exact List.nil_prefix

theorem preparseNextValueNodecrement_moves (ptr remaining : ℕ) :
    Moves Fine (preparseNextValueNodecrement ptr remaining) (.atEnd ptr) id where
  done := by
    intro buf log cv hm h
    rw [preparseNextValueNodecrement] at h
    by_cases hbreak : remaining = uint32Max ∧ buf[ptr]? = some breakByte
    · rw [if_pos hbreak] at h
      obtain ⟨rfl, hend⟩ := Prod.mk.inj h
      obtain rfl := Ending.done.inj hend
      have hlt : ptr < buf.length := (List.getElem?_eq_some_iff.mp hbreak.2).1
      refine ⟨Nat.le_succ ptr, hlt, ?_, ?_⟩
      · intro buf' _ heq
        change buf'.take (ptr + 1) = buf.take (ptr + 1) at heq
        have hbyte : buf'[ptr]? = buf[ptr]? := by
          have := congrArg (fun l => l[ptr]?) heq
          simpa [List.getElem?_take] using this
        rw [preparseNextValueNodecrement, if_pos ⟨hbreak.1, hbyte.trans hbreak.2⟩]
      · intro hi
        refine ⟨Sound.atEnd ?_, by simp⟩
        have hcons : buf.drop ptr = breakByte :: buf.drop (ptr + 1) := by
          rw [List.drop_eq_getElem_cons hlt, (List.getElem?_eq_some_iff.mp hbreak.2).2]
        have hshort : Cbor.ShortForm (buf.drop ptr) := hi.1
        rw [hcons] at hshort
        exact hshort.of_marker (by decide)
    · rw [if_neg hbreak] at h
      have hval : Moves Fine (preparseValue ptr remaining) (.atEnd ptr) id := preparseValue_moves ..
      obtain ⟨h₁, h₂, h₃, h₄⟩ := hval.done hm h
      refine ⟨h₁, h₂, ?_, h₄⟩
      intro buf' hlen heq
      have hext : ptr + 1 ≤ cv.extent := by
        obtain ⟨hptr, _, hvalid, _⟩ := preparseBytes_done (Prod.mk.inj h).2
        rw [CborValue.extent, if_neg hvalid, CborValue.behind, hptr]
        omega
      have hbyte : buf'[ptr]? = buf[ptr]? := by
        have := congrArg (fun l => l[ptr]?) heq
        have hlt : ptr < cv.extent := hext
        simpa [List.getElem?_take, hlt] using this
      rw [preparseNextValueNodecrement, if_neg (by rwa [hbyte])]
      exact h₃ buf' hlen heq
  stop := by
    intro buf log e later hm h
    rw [preparseNextValueNodecrement] at h
    by_cases hbreak : remaining = uint32Max ∧ buf[ptr]? = some breakByte
    · simp [if_pos hbreak] at h
    rw [if_neg hbreak] at h
    have hlt : ptr < buf.length := by
      by_contra hge
      rw [preparseValue, List.drop_eq_nil_of_le (by omega)] at h
      simp [preparseBytes] at h
    rw [preparseNextValueNodecrement, if_neg (by rwa [List.getElem?_append_left hlt])]
    have hval : Moves Fine (preparseValue ptr remaining) (.atEnd ptr) id := preparseValue_moves ..
    exact hval.stop later hm h
  more := by
    intro buf log later hm h
    rw [preparseNextValueNodecrement] at h
    by_cases hbreak : remaining = uint32Max ∧ buf[ptr]? = some breakByte
    · simp [if_pos hbreak] at h
    rw [if_neg hbreak] at h
    obtain ⟨rfl, _⟩ := Prod.mk.inj h
    exact List.nil_prefix

theorem preparseNextValue_moves (it : CborValue) (ptr : ℕ) :
    Moves Fine (preparseNextValue it ptr) (.atEnd ptr) id := by
  unfold preparseNextValue
  split_ifs
  · exact preparseNextValueNodecrement_moves ..
  · exact .ret rfl
  · exact preparseNextValueNodecrement_moves ..

/-- From a head to the place behind it. -/
theorem moves_behind {α : Type} {d : Decode ω α} {next : α → CborValue} {cv : CborValue}
    (hvalid : cv.type ≠ .invalid) (hs : cv.type.isString = false ∨ cv.unknownLength = true)
    (h : Moves Fine d (.atEnd cv.behind) next) : Moves Fine d cv next :=
  h.of_mark (if_neg hvalid) (fun _ hi => Sound.atEnd (hi.behind hvalid hs))

theorem cborParserInit_moves : Moves Fine (cborParserInit) (.atEnd 0) id :=
  preparseValue_moves 0 1

theorem advanceFixed_moves (it : CborValue) : Moves Fine (advanceFixed it) it id := by
  unfold advanceFixed
  split_ifs with h
  · exact .fail
  · apply moves_behind (fun hinv => h (.inl hinv))
    · left
      cases htype : it.type <;> simp_all [CborType.isString, CborType.isFixedType]
    · exact preparseNextValue_moves ..

theorem enterContainer_moves (it : CborValue) : Moves Fine (enterContainer it) it id := by
  unfold enterContainer
  by_cases h : it.type.isContainer = false
  · rw [if_pos h]
    exact .fail
  rw [if_neg h]
  have hvalid : it.type ≠ .invalid := fun hinv => h (by simp [hinv, CborType.isContainer])
  have hs : it.type.isString = false := by
    cases htype : it.type <;> simp_all [CborType.isString, CborType.isContainer]
  apply moves_behind hvalid (.inl hs)
  split_ifs
  · exact preparseNextValueNodecrement_moves ..
  · exact .fail
  · exact .fail
  · exact .ret rfl
  · exact preparseNextValueNodecrement_moves ..
  · exact preparseNextValueNodecrement_moves ..

end

end Dtnme.Bundling.TinyCbor
