import Dtnme.Bundling.Dictionary
import Dtnme.Bundling.Sdnv

/-! # Blocks of version 6 as they arrive

A block starts with a type byte, its flags, references into the dictionary if a flag says so, and the
length of its data. Bytes arrive in chunks. What has been received stands in a buffer of 64 bytes that
grows when the length is known. `memory` is the size that `realloc` can still give.
-/

namespace Dtnme.Bundling
open Library Naming

/-- `SDNV::decode` at the start of bytes: value and number of bytes. -/
def readSdnv (l : List UInt8) : Option (ℕ × ℕ) := (decode (memOf l 0) 0 l.length).result

def sdnv (val : ℕ) : List UInt8 := encodeLoop maxLength 0 val []

/-! ## Reading a value -/

/-- The loop of `SDNV::decode` on a list. -/
def sdnvLoop : List UInt8 → ℕ → ℕ → Option (ℕ × ℕ)
  | [], _, _ => none
  | b :: l, count, val =>
    let val := u64 (val * 128 + b.toNat % 128)
    if b.toNat < 128 then some (val, count + 1) else sdnvLoop l (count + 1) val

theorem memOf_append_length (a : List UInt8) (b : UInt8) (l : List UInt8) :
    memOf (a ++ b :: l) 0 a.length = b := by
  simp [memOf, List.getD_eq_getElem?_getD]

theorem decodeLoop_list (l : List UInt8) : ∀ (a : List UInt8) (count val : ℕ),
    (decodeLoop (memOf (a ++ l) 0) l.length a.length count val).result = sdnvLoop l count val := by
  induction l with
  | nil => intro a count val; rfl
  | cons b l ih =>
    intro a count val
    have hrest := ih (a ++ [b]) (count + 1) (u64 (val * 128 + b.toNat % 128))
    rw [List.append_assoc, List.singleton_append, List.length_append, List.length_singleton] at hrest
    rw [List.length_cons, decodeLoop]
    simp only [peek, Logged.result_bind, Logged.result_note, Option.bind_some, Logged.result_pure,
      memOf_append_length, sdnvLoop]
    by_cases hb : b.toNat < 128
    · rw [if_pos hb, if_pos hb, Logged.result_pure]
    · rw [if_neg hb, if_neg hb, hrest]

/-- What `SDNV::decode` makes of value and number of bytes. -/
theorem readSdnv_eq (l : List UInt8) : readSdnv l = (sdnvLoop l 0 0).bind fun p =>
    if maxLength < p.2 ∨ (p.2 = maxLength ∧ l.head? ≠ some 0x81) then none else some p := by
  have hloop := decodeLoop_list l [] 0 0
  rw [List.nil_append, List.length_nil] at hloop
  simp only [readSdnv, decode, Logged.result_bind, Logged.result_note, Option.bind_some, hloop]
  cases l with
  | nil => rfl
  | cons b l =>
    cases hl : sdnvLoop (b :: l) 0 0 with
    | none => rfl
    | some p =>
      have hmem : memOf (b :: l) 0 0 = b := rfl
      simp only [Option.bind_some, hmem, List.head?_cons, ne_eq, Option.some.injEq]
      split_ifs <;> rfl

theorem sdnvLoop_append {l : List UInt8} (m : List UInt8) : ∀ {count val : ℕ} {p : ℕ × ℕ},
    sdnvLoop l count val = some p → sdnvLoop (l ++ m) count val = some p := by
  induction l with
  | nil => intro count val p h; simp [sdnvLoop] at h
  | cons b l ih =>
    intro count val p h
    rw [List.cons_append]
    unfold sdnvLoop at h ⊢
    dsimp only at h ⊢
    split_ifs at h ⊢ with hb
    · exact h
    · exact ih h

theorem sdnvLoop_of_append {l m : List UInt8} : ∀ {count val v n : ℕ},
    sdnvLoop (l ++ m) count val = some (v, n) → n ≤ count + l.length →
      sdnvLoop l count val = some (v, n) := by
  induction l with
  | nil =>
    intro count val v n h hn
    have hpos : ∀ (m : List UInt8) (c w : ℕ), sdnvLoop m c w = some (v, n) → c < n := by
      intro m
      induction m with
      | nil => intro c w h; simp [sdnvLoop] at h
      | cons b m ih =>
        intro c w h
        unfold sdnvLoop at h
        dsimp only at h
        split_ifs at h with hb
        · cases h
          exact Nat.lt_succ_self c
        · exact lt_trans (Nat.lt_succ_self c) (ih _ _ h)
    have := hpos m count val h
    simp at hn
    omega
  | cons b l ih =>
    intro count val v n h hn
    rw [List.cons_append] at h
    unfold sdnvLoop at h ⊢
    dsimp only at h ⊢
    split_ifs at h ⊢ with hb
    · exact h
    · exact ih h (by rw [List.length_cons] at hn; omega)

theorem readSdnv_append {l : List UInt8} {p : ℕ × ℕ} (m : List UInt8) (h : readSdnv l = some p) :
    readSdnv (l ++ m) = some p := by
  rw [readSdnv_eq] at h ⊢
  obtain ⟨q, hq, hp⟩ := Option.bind_eq_some_iff.mp h
  have hne : l ≠ [] := by
    rintro rfl
    simp [sdnvLoop] at hq
  rw [sdnvLoop_append m hq, Option.bind_some, List.head?_append_of_ne_nil l hne]
  exact hp

/-- Only the bytes of the value count. -/
theorem readSdnv_of_append {l m : List UInt8} {v n : ℕ} (h : readSdnv (l ++ m) = some (v, n))
    (hn : n ≤ l.length) : readSdnv l = some (v, n) := by
  rw [readSdnv_eq] at h ⊢
  obtain ⟨⟨w, k⟩, hq, hp⟩ := Option.bind_eq_some_iff.mp h
  have hk : (w, k) = (v, n) := by
    split_ifs at hp
    exact Option.some.inj hp
  cases hk
  have hl := sdnvLoop_of_append hq (by simpa using hn)
  have hne : l ≠ [] := by
    rintro rfl
    simp [sdnvLoop] at hl
  rw [hl, Option.bind_some, ← List.head?_append_of_ne_nil l hne]
  exact hp

theorem readSdnv_bound {l : List UInt8} {v n : ℕ} (h : readSdnv l = some (v, n)) :
    1 ≤ n ∧ n ≤ l.length ∧ v < 2 ^ 64 := by
  obtain ⟨hn, hv, henc⟩ := decode_bound h
  exact ⟨le_trans (encodingLen_pos v) henc, hn, hv⟩

theorem length_sdnv {val : ℕ} (h : val < 2 ^ 64) : (sdnv val).length = encodingLen val :=
  length_encodeLoop h

/-- A value is read back. -/
theorem readSdnv_sdnv {val : ℕ} (h : val < 2 ^ 64) (rest : List UInt8) :
    readSdnv (sdnv val ++ rest) = some (val, encodingLen val) := by
  have hmem := holds_memOf (sdnv val ++ rest) 0
  rw [holds_append] at hmem
  refine decode_encode h hmem.1 ?_
  rw [List.length_append, length_sdnv h]
  exact Nat.le_add_right _ _

/-! ## Blocks -/

/-- The registered block processors. -/
inductive Processor
  | primary
  | payload
  | previousHop
  | metadata
  | custodyTransferEnhancement
  | extendedClassOfService
  | imcState
  | unknown
  deriving DecidableEq, Repr

def findProcessor (type : UInt8) : Processor :=
  match type with
  | 0x00 => .primary
  | 0x01 => .payload
  | 0x05 => .previousHop
  | 0x08 => .metadata
  | 0x0a => .custodyTransferEnhancement
  | 0x13 => .extendedClassOfService
  | 0xde => .imcState
  | _ => .unknown

structure RecvBlock where
  owner : Processor
  contents : List UInt8 := []
  bufLen : ℕ := 64
  dataLength : ℕ := 0
  dataOffset : ℕ := 0
  complete : Bool := false
  eidList : List Eid := []
  deriving DecidableEq, Repr

namespace RecvBlock

def fullLength (block : RecvBlock) : ℕ := u64 (block.dataOffset + block.dataLength)

/-- `ScratchBuffer::reserve`. -/
def reserve (memory : ℕ) (block : RecvBlock) (size : ℕ) : Except Fault RecvBlock :=
  let size := if size = 0 then block.bufLen * 2 else size
  if size ≤ block.bufLen then .ok block
  else if size ≤ memory then .ok { block with bufLen := size }
  else .error .panic

/-- `memcpy` to `end()`, and `set_len`. -/
def fill (block : RecvBlock) (bytes : List UInt8) : Except Fault RecvBlock :=
  if block.contents.length < block.bufLen then
    if block.contents.length + bytes.length ≤ block.bufLen then
      .ok { block with contents := block.contents ++ bytes }
    else .error .undefined
  else .error .assertFailed

end RecvBlock

/-! ## The preamble -/

structure Preamble where
  flags : ℕ
  eidList : List Eid
  blockLen : ℕ
  offset : ℕ
  deriving DecidableEq, Repr

/-- The pairs of offsets behind `offset`, counted by 32 bits. A pair has two bytes at least, so that
bytes run out before the rounds do. -/
def eidLoop (dict contents : List UInt8) (count : ℕ) :
    ℕ → ℕ → ℕ → List Eid → Option (List Eid × ℕ)
  | 0, _, _, _ => none
  | fuel + 1, i, offset, eids =>
    if i < count then
      (readSdnv (contents.drop offset)).bind fun (schemeOffset, n) =>
        (readSdnv (contents.drop (offset + n))).bind fun (sspOffset, k) =>
          eidLoop dict contents count fuel (u32 (i + 1)) (offset + n + k)
            (eids ++ [Dictionary.extractEid dict schemeOffset sspOffset])
    else some (eids, offset)

/-- The references, if `BLOCK_FLAG_EID_REFS` is set. -/
def eidRefs (dict contents : List UInt8) (flags offset : ℕ) : Option (List Eid × ℕ) :=
  if flags.testBit 6 then
    (readSdnv (contents.drop offset)).bind fun (count, n) =>
      eidLoop dict contents count (contents.length + 1) 0 (offset + n) []
  else some ([], offset)

/-- The preamble in what has been received; none if it is not complete. -/
def preamble (dict contents : List UInt8) : Option Preamble :=
  (readSdnv (contents.drop 1)).bind fun (flags, n) =>
    (eidRefs dict contents flags (1 + n)).bind fun (eids, offset) =>
      (readSdnv (contents.drop offset)).bind fun (blockLen, k) =>
        some { flags := flags, eidList := eids, blockLen := blockLen, offset := offset + k }

/-- More room if there is none; `nfree` asserts that the length is within the buffer. -/
def RecvBlock.expand (memory : ℕ) (block : RecvBlock) : Except Fault RecvBlock :=
  if block.bufLen = block.contents.length then block.reserve memory (block.contents.length + 64)
  else .ok block

/-- What is known after the preamble; bytes behind it are not kept. -/
def RecvBlock.start (block : RecvBlock) (p : Preamble) : RecvBlock :=
  { block with
    dataLength := p.blockLen
    dataOffset := p.offset
    contents := block.contents.take p.offset
    eidList := p.eidList }

/-- `consume_preamble`. What does not fit into the buffer is an error if the preamble needs it. -/
def consumePreamble (memory : ℕ) (dict : List UInt8) (block : RecvBlock) (data : List UInt8) :
    Except Fault (Option ℕ × RecvBlock) := do
  require (block.complete = false)
  require (block.dataOffset = 0)
  require (block.contents.length ≤ block.bufLen)
  let block ← block.expand memory
  let prevConsumed := block.contents.length
  let tocopy := min data.length (block.bufLen - prevConsumed)
  require (prevConsumed < block.bufLen)
  let block ← block.fill (data.take tocopy)
  match preamble dict block.contents with
  | none => pure (if tocopy = data.length then some data.length else none, block)
  | some p => do
    require (block.eidList = [])
    pure (some (p.offset - prevConsumed), block.start p)

/-- A block without data is complete when its preamble is. -/
def RecvBlock.finishEmpty (block : RecvBlock) : RecvBlock :=
  if block.dataOffset ≠ 0 ∧ block.dataLength = 0 then { block with complete := true } else block

/-- Copy into the reserved buffer what is missing, or all there is. -/
def copyData (memory : ℕ) (block : RecvBlock) (data : List UInt8) : Except Fault (ℕ × RecvBlock) := do
  require (block.dataLength = 0 ∨ block.contents.length < block.fullLength)
  let block ← block.reserve memory block.fullLength
  let remainder := u64Sub block.fullLength block.contents.length
  let tocopy := if remainder ≤ data.length then remainder else data.length
  let block ← block.fill (data.take tocopy)
  pure (tocopy, { block with complete := block.complete || remainder ≤ data.length })

/-- `BP6_BlockProcessor::consume` behind the preamble. -/
def consumeData (memory : ℕ) (block : RecvBlock) (data : List UInt8) :
    Except Fault (ℕ × RecvBlock) := do
  require (block.dataOffset = 0 → data = [])
  if data = [] then pure (0, block.finishEmpty) else copyData memory block.finishEmpty data

/-- The preamble, unless it is known. -/
def consumeStart (memory : ℕ) (dict : List UInt8) (block : RecvBlock) (data : List UInt8) :
    Except Fault (Option ℕ × RecvBlock) :=
  if block.dataOffset = 0 then consumePreamble memory dict block data else .ok (some 0, block)

/-- `BP6_BlockProcessor::consume`. -/
def consumeBlock (memory : ℕ) (dict : List UInt8) (block : RecvBlock) (data : List UInt8) :
    Except Fault (Option ℕ × RecvBlock) := do
  require (block.complete = false)
  let (cc, block) ← consumeStart memory dict block data
  match cc with
  | none => pure (none, block)
  | some cc => do
    let (copied, block) ← consumeData memory block (data.drop cc)
    pure (some (cc + copied), block)

/-! ## What decides a preamble -/

theorem drop_append_of_le {a b : List UInt8} {n : ℕ} (h : n ≤ a.length) :
    (a ++ b).drop n = a.drop n ++ b := List.drop_append_of_le_length h

/-- A value that ends within the first part is read from it. -/
theorem readSdnv_drop {a b : List UInt8} {off v n : ℕ}
    (h : readSdnv ((a ++ b).drop off) = some (v, n)) (hn : off + n ≤ a.length) :
    readSdnv (a.drop off) = some (v, n) := by
  rw [drop_append_of_le (by omega)] at h
  exact readSdnv_of_append h (by rw [List.length_drop]; omega)

theorem eidLoop_le {dict contents : List UInt8} {count o : ℕ} {r : List Eid} (fuel : ℕ) :
    ∀ {i off : ℕ} {eids : List Eid},
      eidLoop dict contents count fuel i off eids = some (r, o) → off ≤ o := by
  induction fuel with
  | zero => intro i off eids h; simp [eidLoop] at h
  | succ fuel ih =>
    intro i off eids h
    rw [eidLoop] at h
    split_ifs at h with hi
    · obtain ⟨⟨so, n⟩, -, h⟩ := Option.bind_eq_some_iff.mp h
      obtain ⟨⟨ss, k⟩, -, h⟩ := Option.bind_eq_some_iff.mp h
      have := ih h
      omega
    · cases h
      exact le_rfl

/-- References that end within the first part are read from it, with as many rounds as there are
bytes. -/
theorem eidLoop_of_append {dict a b : List UInt8} {count o : ℕ} {r : List Eid}
    (ho : o ≤ a.length) (fuel : ℕ) : ∀ {fuel' i off : ℕ} {eids : List Eid},
      eidLoop dict (a ++ b) count fuel i off eids = some (r, o) → o - off < fuel' →
        eidLoop dict a count fuel' i off eids = some (r, o) := by
  induction fuel with
  | zero => intro fuel' i off eids h; simp [eidLoop] at h
  | succ fuel ih =>
    intro fuel' i off eids h hfuel
    obtain ⟨fuel', rfl⟩ : ∃ f, fuel' = f + 1 := ⟨fuel' - 1, by omega⟩
    rw [eidLoop] at h ⊢
    split_ifs at h ⊢ with hi
    · obtain ⟨⟨so, n⟩, hso, h⟩ := Option.bind_eq_some_iff.mp h
      obtain ⟨⟨ss, k⟩, hss, h⟩ := Option.bind_eq_some_iff.mp h
      have hle := eidLoop_le fuel h
      have hn := (readSdnv_bound hso).1
      have hk := (readSdnv_bound hss).1
      rw [readSdnv_drop hso (by omega), Option.bind_some]
      dsimp only
      rw [readSdnv_drop hss (by omega), Option.bind_some]
      exact ih h (by omega)
    · exact h

theorem eidRefs_le {dict contents : List UInt8} {flags off o : ℕ} {r : List Eid}
    (h : eidRefs dict contents flags off = some (r, o)) : off ≤ o := by
  unfold eidRefs at h
  split_ifs at h with hf
  · obtain ⟨⟨count, n⟩, -, h⟩ := Option.bind_eq_some_iff.mp h
    have := eidLoop_le _ h
    omega
  · cases h
    exact le_rfl

theorem eidRefs_of_append {dict a b : List UInt8} {flags off o : ℕ} {r : List Eid}
    (h : eidRefs dict (a ++ b) flags off = some (r, o)) (ho : o ≤ a.length) :
    eidRefs dict a flags off = some (r, o) := by
  unfold eidRefs at h ⊢
  split_ifs at h ⊢ with hf
  · obtain ⟨⟨count, n⟩, hcount, h⟩ := Option.bind_eq_some_iff.mp h
    have hle := eidLoop_le _ h
    rw [readSdnv_drop hcount (by omega), Option.bind_some]
    exact eidLoop_of_append ho _ h (by omega)
  · exact h

/-- What a preamble consists of. -/
theorem preamble_eq_some {dict contents : List UInt8} {p : Preamble}
    (h : preamble dict contents = some p) : ∃ n o k,
      readSdnv (contents.drop 1) = some (p.flags, n) ∧
      eidRefs dict contents p.flags (1 + n) = some (p.eidList, o) ∧
      readSdnv (contents.drop o) = some (p.blockLen, k) ∧ p.offset = o + k := by
  obtain ⟨⟨flags, n⟩, hflags, h⟩ := Option.bind_eq_some_iff.mp h
  obtain ⟨⟨eids, o⟩, hrefs, h⟩ := Option.bind_eq_some_iff.mp h
  obtain ⟨⟨blockLen, k⟩, hlen, h⟩ := Option.bind_eq_some_iff.mp h
  cases h
  exact ⟨n, o, k, hflags, hrefs, hlen, rfl⟩

theorem preamble_bound {dict contents : List UInt8} {p : Preamble}
    (h : preamble dict contents = some p) :
    3 ≤ p.offset ∧ p.offset ≤ contents.length ∧ p.blockLen < 2 ^ 64 := by
  obtain ⟨n, o, k, hflags, hrefs, hlen, hoff⟩ := preamble_eq_some h
  obtain ⟨hn, -, -⟩ := readSdnv_bound hflags
  obtain ⟨hk, hk', hv⟩ := readSdnv_bound hlen
  have hle := eidRefs_le hrefs
  rw [List.length_drop] at hk'
  exact ⟨by omega, by omega, hv⟩

/-- A preamble that ends within the first part is found in it. -/
theorem preamble_of_append {dict a b : List UInt8} {p : Preamble}
    (h : preamble dict (a ++ b) = some p) (hp : p.offset ≤ a.length) : preamble dict a = some p := by
  obtain ⟨n, o, k, hflags, hrefs, hlen, hoff⟩ := preamble_eq_some h
  have hle := eidRefs_le hrefs
  rw [preamble, readSdnv_drop hflags (by omega), Option.bind_some]
  dsimp only
  rw [eidRefs_of_append hrefs (by omega), Option.bind_some]
  dsimp only
  rw [readSdnv_drop hlen (by omega), Option.bind_some, ← hoff]

theorem preamble_take {dict l : List UInt8} {p : Preamble} (h : preamble dict l = some p) {k : ℕ}
    (hk : p.offset ≤ k) : preamble dict (l.take k) = some p := by
  have hbound := (preamble_bound h).2.1
  rw [← List.take_append_drop k l] at h
  exact preamble_of_append h (by rw [List.length_take]; omega)

/-! ## A block in one piece -/

theorem RecvBlock.reserve_of_le {memory size : ℕ} (block : RecvBlock) (hpos : size ≠ 0)
    (h : size ≤ memory) :
    block.reserve memory size = .ok { block with bufLen := max block.bufLen size } := by
  rw [reserve, if_neg hpos]
  split_ifs with hle
  · rw [max_eq_left hle]
  · rw [max_eq_right (by omega)]

theorem RecvBlock.fill_of_le {block : RecvBlock} (bytes : List UInt8)
    (hlt : block.contents.length < block.bufLen)
    (hle : block.contents.length + bytes.length ≤ block.bufLen) :
    block.fill bytes = .ok { block with contents := block.contents ++ bytes } := by
  rw [fill, if_pos hlt, if_pos hle]

/-- What is missing is copied, or all there is. -/
theorem copyData_eq {memory : ℕ} {block : RecvBlock} {data : List UInt8}
    (hreq : block.dataLength = 0 ∨ block.contents.length < block.fullLength)
    (hpos : block.fullLength ≠ 0) (hmem : block.fullLength ≤ memory)
    (hle : block.contents.length ≤ block.fullLength)
    (hend : block.contents.length < max block.bufLen block.fullLength) :
    copyData memory block data =
      .ok (min (block.fullLength - block.contents.length) data.length,
        { block with
          bufLen := max block.bufLen block.fullLength
          contents := block.contents ++ data.take (block.fullLength - block.contents.length)
          complete := block.complete ||
            decide (block.fullLength - block.contents.length ≤ data.length) }) := by
  have h64 : block.fullLength < 2 ^ 64 := u64_lt _
  have hsub := u64Sub_of_le h64 hle
  have hcopied : (if block.fullLength - block.contents.length ≤ data.length then
      block.fullLength - block.contents.length else data.length) =
      min (block.fullLength - block.contents.length) data.length := by
    split_ifs with h
    · exact (min_eq_left h).symm
    · exact (min_eq_right (by omega)).symm
  have htake : data.take (min (block.fullLength - block.contents.length) data.length) =
      data.take (block.fullLength - block.contents.length) := by
    rw [← List.take_take, List.take_length]
  have hfill : ({ block with bufLen := max block.bufLen block.fullLength } : RecvBlock).fill
      (data.take (block.fullLength - block.contents.length)) = _ :=
    RecvBlock.fill_of_le _ hend (by
      rw [List.length_take]
      dsimp only
      omega)
  rw [copyData, require_of hreq]
  simp only [bind, Except.bind, RecvBlock.reserve_of_le block hpos hmem]
  have hfull : ({ block with bufLen := max block.bufLen block.fullLength } : RecvBlock).fullLength =
      block.fullLength := rfl
  rw [hfull, hsub, hcopied, htake, hfill]
  rfl

/-- A block that came in one piece. -/
def RecvBlock.whole (owner : Processor) (p : Preamble) (data : List UInt8) : RecvBlock :=
  { owner := owner
    contents := data
    bufLen := max 64 data.length
    dataLength := p.blockLen
    dataOffset := p.offset
    complete := true
    eidList := p.eidList }

/-- The preamble is found in the first chunk. -/
theorem consumePreamble_whole {memory : ℕ} {dict data : List UInt8} {p : Preamble}
    (owner : Processor) (hp : preamble dict data = some p) (hoff : p.offset ≤ 64) :
    consumePreamble memory dict { owner := owner } data =
      .ok (some p.offset, ({ owner := owner, contents := data } : RecvBlock).start p) := by
  have hbound := preamble_bound hp
  have hfill : ({ owner := owner } : RecvBlock).fill (data.take (min data.length 64)) =
      .ok { owner := owner, contents := data.take (min data.length 64) } := by
    refine RecvBlock.fill_of_le _ (by simp) ?_
    rw [List.length_take]
    simp
  have hpre := preamble_take hp (k := min data.length 64) (by omega)
  have hstart : (data.take (min data.length 64)).take p.offset = data.take p.offset := by
    rw [List.take_take, min_eq_left (by omega)]
  rw [consumePreamble]
  simp only [require_of, bind, Except.bind, RecvBlock.expand, List.length_nil, Nat.zero_le,
    OfNat.ofNat_ne_zero, if_false, Nat.sub_zero, Nat.ofNat_pos, hfill, hpre, RecvBlock.start, hstart]
  rfl

theorem copyData_whole {memory : ℕ} {data : List UInt8} {p : Preamble} (owner : Processor)
    (hpos : 0 < p.blockLen) (hlen : data.length = p.offset + p.blockLen)
    (h64 : data.length < 2 ^ 64) (hmem : data.length ≤ memory) :
    copyData memory (({ owner := owner, contents := data } : RecvBlock).start p)
      (data.drop p.offset) = .ok (p.blockLen, RecvBlock.whole owner p data) := by
  have hfull : (({ owner := owner, contents := data } : RecvBlock).start p).fullLength =
      data.length := by
    rw [hlen] at h64 ⊢
    exact u64_of_lt h64
  have htake : (({ owner := owner, contents := data } : RecvBlock).start p).contents.length =
      p.offset := by
    change (data.take p.offset).length = p.offset
    rw [List.length_take]
    omega
  have hrest : (data.drop p.offset).length = p.blockLen := by
    rw [List.length_drop]
    omega
  rw [copyData_eq (.inr (by omega)) (by omega) (by omega) (by omega) (by omega), hfull, htake, hrest,
    show data.length - p.offset = p.blockLen by omega, min_self,
    List.take_of_length_le (by omega)]
  simp [RecvBlock.whole, RecvBlock.start, List.take_append_drop]

theorem consumeBlock_whole {memory : ℕ} {dict data : List UInt8} {p : Preamble} (owner : Processor)
    (hp : preamble dict data = some p) (hoff : p.offset ≤ 64) (hpos : 0 < p.blockLen)
    (hlen : data.length = p.offset + p.blockLen) (h64 : data.length < 2 ^ 64)
    (hmem : data.length ≤ memory) :
    consumeBlock memory dict { owner := owner } data =
      .ok (some data.length, RecvBlock.whole owner p data) := by
  have hbound := preamble_bound hp
  have hoffset : (({ owner := owner, contents := data } : RecvBlock).start p).dataOffset = p.offset :=
    rfl
  have hne : data.drop p.offset ≠ [] := by
    refine List.ne_nil_of_length_pos ?_
    rw [List.length_drop]
    omega
  have hempty : (({ owner := owner, contents := data } : RecvBlock).start p).finishEmpty =
      ({ owner := owner, contents := data } : RecvBlock).start p :=
    if_neg (fun h => hpos.ne' h.2)
  rw [consumeBlock, require_of rfl, consumeStart, if_pos rfl, consumePreamble_whole owner hp hoff]
  simp only [bind, Except.bind, consumeData]
  rw [require_of (fun h => by omega)]
  dsimp only
  rw [if_neg hne, hempty, copyData_whole owner hpos hlen h64 hmem, hlen]
  rfl

end Dtnme.Bundling
