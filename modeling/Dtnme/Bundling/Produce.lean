import Dtnme.Bundling.BlockInfo

/-! # Producing the bytes of a version 7 bundle

`BundleProtocolVersion7::produce` and the `produce` of the block processors. The caller
asks for the next bytes at the offset it has reached; the payload stays in the store and
is read through a work buffer that the payload block keeps between calls.
-/

namespace Dtnme.Bundling
open Library

/-! ## The block processors -/

/-- `BP7_BlockProcessor::produce`. -/
def produceContents (block : BlockInfo) (offset len : ℕ) : Except Fault (List UInt8) :=
  if offset < block.contents.length ∧ offset + len ≤ block.contents.length then
    copyOut block.contents offset len
  else .error .assertFailed

/-- The work buffer is set up at the first byte of the block, when the payload is longer than
what is asked for. -/
def openHelper (payload : List UInt8) (block : BlockInfo) (offset len : ℕ) : BlockInfo :=
  if offset = 0 ∧ block.locals = none ∧ len < payload.length then
    block.setLocals (some (StreamBuffer.new (min payload.length 10000000)))
  else block

/-- Read in buffers until the request for `len` bytes is satisfied. -/
def refill (payload : List UInt8) :
    ℕ → StreamBuffer → ℕ → ℕ → Except Fault (List UInt8 × StreamBuffer × ℕ)
  | _, workBuf, payloadOffset, 0 => .ok ([], workBuf, payloadOffset)
  | 0, _, _, _ + 1 => .error .noReturn
  | fuel + 1, workBuf, payloadOffset, len + 1 => do
    let toread := min workBuf.tailbytes (payload.length - payloadOffset)
    let read ← readData payload payloadOffset toread
    let workBuf ← workBuf.store read
    let workBuf ← workBuf.fill toread
    let tocopy := min (len + 1) workBuf.fullbytes
    let bytes ← copyOut workBuf.buf workBuf.start tocopy
    let workBuf ← workBuf.consume tocopy
    let (rest, workBuf, payloadOffset) ←
      refill payload fuel workBuf (payloadOffset + tocopy) (len + 1 - tocopy)
    .ok (bytes ++ rest, workBuf, payloadOffset)

/-- The helper is deleted once the payload has been read in. -/
def keepHelper (payload : List UInt8) (payloadOffset : ℕ) (workBuf : StreamBuffer) :
    Option StreamBuffer :=
  if payloadOffset = payload.length then none else some workBuf

/-- What is left in the work buffer. -/
def drain (workBuf : StreamBuffer) : Except Fault (List UInt8 × StreamBuffer) :=
  if 0 < workBuf.fullbytes then do
    let bytes ← copyOut workBuf.buf workBuf.start workBuf.fullbytes
    let workBuf ← workBuf.consume workBuf.fullbytes
    .ok (bytes, workBuf)
  else .ok ([], workBuf)

/-- The part of `BP7_PayloadBlockProcessor::produce` with a helper. -/
def produceBuffered (payload : List UInt8) (workBuf : StreamBuffer) (payloadOffset len : ℕ) :
    Except Fault (List UInt8 × Option StreamBuffer) := do
  let tocopy := min len (payload.length - payloadOffset)
  if tocopy ≤ workBuf.fullbytes then
    let bytes ← copyOut workBuf.buf workBuf.start tocopy
    let workBuf ← workBuf.consume tocopy
    .ok (bytes, keepHelper payload (payloadOffset + tocopy) workBuf)
  else
    let (bytes, workBuf) ← drain workBuf
    if workBuf.tailbytes = workBuf.size then
      let (rest, workBuf, payloadOffset) ← refill payload (len - bytes.length) workBuf
        (payloadOffset + bytes.length) (len - bytes.length)
      .ok (bytes ++ rest, keepHelper payload payloadOffset workBuf)
    else .error .assertFailed

/-- The payload bytes of a request, with the helper if there is one. -/
def produceData (payload : List UInt8) (locals : Option StreamBuffer) (payloadOffset len : ℕ) :
    Except Fault (List UInt8 × Option StreamBuffer) :=
  match locals with
  | some workBuf => produceBuffered payload workBuf payloadOffset len
  | none => do
    let bytes ← readData payload payloadOffset (min len (payload.length - payloadOffset))
    .ok (bytes, none)

/-- The asked range of the preamble. -/
def producePreamble (block : BlockInfo) (offset len : ℕ) : Except Fault (List UInt8) :=
  if offset < block.dataOffset then
    copyOut block.contents offset (min len (block.dataOffset - offset))
  else .ok []

/-- `BP7_PayloadBlockProcessor::produce`: the asked range of the preamble, then payload bytes. -/
def producePayload (payload : List UInt8) (block : BlockInfo) (offset len : ℕ) :
    Except Fault (List UInt8 × BlockInfo) := do
  let block := openHelper payload block offset len
  let bytes ← producePreamble block offset len
  if len - bytes.length = 0 then .ok (bytes, block)
  else
    let (data, locals) ← produceData payload block.locals
      (offset + bytes.length - block.dataOffset) (len - bytes.length)
    .ok (bytes ++ data, block.setLocals locals)

/-- `owner()->produce`. -/
def produceBlock (payload : List UInt8) (block : BlockInfo) (offset len : ℕ) :
    Except Fault (List UInt8 × BlockInfo) :=
  if block.type = .payload then producePayload payload block offset len
  else do
    let bytes ← produceContents block offset len
    .ok (bytes, block)

/-! ## The bundle -/

/-- `BundleProtocolVersion7::total_length`. -/
def totalLength (blocks : List BlockInfo) : ℕ := 2 + (blocks.map BlockInfo.fullLength).sum

/-- The loop over the blocks from the one that holds `offset` on: the bytes, the room that is
left and the blocks. -/
def copyBlocks (payload : List UInt8) :
    List BlockInfo → ℕ → ℕ → Except Fault (List UInt8 × ℕ × List BlockInfo)
  | [], _, _ => .error .assertFailed
  | block :: blocks, offset, len => do
    let remainder := block.fullLength - offset
    let tocopy := min len remainder
    let (bytes, block) ← produceBlock payload block offset tocopy
    if len - tocopy = 0 then .ok (bytes, 0, block :: blocks)
    else if tocopy ≠ remainder then .error .assertFailed
    else if block.type = .payload then .ok (bytes, len - tocopy, block :: blocks)
    else
      let (rest, left, blocks) ← copyBlocks payload blocks 0 (len - tocopy)
      .ok (bytes ++ rest, left, block :: blocks)

/-- What a call writes and returns, and the blocks it leaves. -/
structure Chunk where
  bytes : List UInt8
  produced : ℕ
  last : Bool
  blocks : List BlockInfo

/-- The blocks skipped by the offset, then the loop, then the break byte if it has room. The
caller has written `frame` already, which counts for what is returned. -/
def produceFrom (payload frame : List UInt8) (origlen : ℕ) :
    List BlockInfo → ℕ → ℕ → Except Fault Chunk
  | [], _, _ => .ok { bytes := frame ++ [0xff], produced := 1, last := true, blocks := [] }
  | block :: blocks, offset, len =>
    if block.fullLength ≤ offset then do
      let chunk ← produceFrom payload frame origlen blocks (offset - block.fullLength) len
      .ok { chunk with blocks := block :: chunk.blocks }
    else do
      let (bytes, left, blocks) ← copyBlocks payload (block :: blocks) offset len
      if 0 < left then
        .ok { bytes := frame ++ bytes ++ [0xff], produced := origlen - (left - 1), last := true,
              blocks := blocks }
      else .ok { bytes := frame ++ bytes, produced := origlen, last := false, blocks := blocks }

/-- `BundleProtocolVersion7::produce`. The first byte opens the indefinite length array. -/
def produce (payload : List UInt8) (blocks : List BlockInfo) (offset len : ℕ) :
    Except Fault Chunk :=
  if len = 0 then .ok { bytes := [], produced := 0, last := false, blocks := blocks }
  else if blocks = [] then .error .assertFailed
  else if offset = 0 then produceFrom payload [0x9f] len blocks 0 (len - 1)
  else produceFrom payload [] len blocks (offset - 1) len

/-- The caller's loop, for either version: `produce` with the number of bytes produced so far as the
offset, with room for `sizes i` bytes in call `i`, until `last` is set. -/
def transmitWith (produce : List BlockInfo → ℕ → ℕ → Except Fault Chunk) (sizes : ℕ → ℕ) :
    ℕ → ℕ → ℕ → List BlockInfo → Except Fault (List Chunk)
  | 0, _, _, _ => .error .noReturn
  | calls + 1, i, offset, blocks => do
    let chunk ← produce blocks offset (sizes i)
    if chunk.last then .ok [chunk]
    else
      let rest ← transmitWith produce sizes calls (i + 1) (offset + chunk.produced) chunk.blocks
      .ok (chunk :: rest)

def transmit (payload : List UInt8) (sizes : ℕ → ℕ) :
    ℕ → ℕ → ℕ → List BlockInfo → Except Fault (List Chunk) :=
  transmitWith (produce payload) sizes

theorem transmitWith_ok {produce : List BlockInfo → ℕ → ℕ → Except Fault Chunk} {sizes : ℕ → ℕ}
    {calls i offset : ℕ} {blocks : List BlockInfo} {chunk : Chunk}
    (h : produce blocks offset (sizes i) = .ok chunk) :
    transmitWith produce sizes (calls + 1) i offset blocks =
      if chunk.last then .ok [chunk]
      else (transmitWith produce sizes calls (i + 1) (offset + chunk.produced) chunk.blocks).map
        (chunk :: ·) := by
  rw [transmitWith, h]
  simp only [bind, Except.bind]
  split_ifs
  · rfl
  · cases transmitWith produce sizes calls (i + 1) (offset + chunk.produced) chunk.blocks <;> rfl

/-! ## The payload block -/

/-- The work buffer holds the payload bytes that follow `payloadOffset`. -/
def Ahead (payload : List UInt8) (payloadOffset : ℕ) (workBuf : StreamBuffer) : Prop :=
  ∃ r, payloadOffset + r ≤ payload.length ∧ workBuf.Holds (slice payload payloadOffset r)

theorem readData_ok {payload : List UInt8} {off len : ℕ} (h : off + len ≤ payload.length) :
    readData payload off len = .ok (slice payload off len) := if_pos h

theorem drain_holds {workBuf : StreamBuffer} {data : List UInt8} (h : workBuf.Holds data) :
    ∃ emptied, drain workBuf = .ok (data, emptied) ∧ emptied.Holds [] := by
  have hf := h.fullbytes_eq
  unfold drain
  split_ifs with hpos
  · obtain ⟨emptied, hc, he⟩ := h.consume (le_refl data.length)
    refine ⟨emptied, ?_, by simpa using he⟩
    rw [hf, h.copyOut le_rfl, hc, List.take_length]
    rfl
  · have hnil : data = [] := List.length_eq_zero_iff.mp (by omega)
    subst hnil
    exact ⟨workBuf, rfl, h⟩

@[simp] theorem refill_zero (payload : List UInt8) (fuel : ℕ) (workBuf : StreamBuffer) (po : ℕ) :
    refill payload fuel workBuf po 0 = .ok ([], workBuf, po) := by cases fuel <;> rfl

/-- Each round reads at least one byte, so as many rounds as bytes are enough. -/
theorem refill_reads (payload : List UInt8) (fuel po len : ℕ) {workBuf : StreamBuffer} (h : workBuf.Holds [])
    (hle : po + len ≤ payload.length) (hfuel : len ≤ fuel) :
    ∃ workBuf', refill payload fuel workBuf po len = .ok (slice payload po len, workBuf', po + len) ∧
      Ahead payload (po + len) workBuf' := by
  induction fuel generalizing workBuf po len with
  | zero =>
    obtain rfl : len = 0 := by omega
    exact ⟨workBuf, by simp, 0, by omega, by simpa using h⟩
  | succ fuel ih =>
    cases len with
    | zero => exact ⟨workBuf, by simp, 0, by omega, by simpa using h⟩
    | succ len =>
      set toread := min workBuf.tailbytes (payload.length - po) with htoread
      have htail := h.tailbytes_eq
      have hsize := h.size_pos
      have hroom : po + toread ≤ payload.length := by omega
      have hlen : (slice payload po toread).length = toread := length_slice_of_le hroom
      have hne : slice payload po toread ≠ [] := by
        rw [← List.length_pos_iff, hlen]
        omega
      obtain ⟨stored, filled, hstore, hfill, hholds⟩ := h.load (by omega) hne
      rw [hlen] at hfill
      have hfull : filled.fullbytes = toread := by rw [hholds.fullbytes_eq, hlen]
      set tocopy := min (len + 1) toread with htocopy
      have hcopy := hholds.copyOut (n := tocopy) (by omega)
      obtain ⟨rested, hconsume, hrested⟩ := hholds.consume (n := tocopy) (by omega)
      rw [take_slice (by omega)] at hcopy
      rw [drop_slice] at hrested
      have hrun : ∃ workBuf', refill payload fuel rested (po + tocopy) (len + 1 - tocopy) =
          .ok (slice payload (po + tocopy) (len + 1 - tocopy), workBuf', po + (len + 1)) ∧
            Ahead payload (po + (len + 1)) workBuf' := by
        -- either the request is satisfied, or the work buffer is empty again
        by_cases hdone : len + 1 ≤ toread
        · have he : tocopy = len + 1 := by omega
          rw [he, Nat.sub_self, slice_zero, refill_zero]
          rw [he] at hrested
          exact ⟨rested, rfl, toread - (len + 1), by omega, hrested⟩
        · have he : tocopy = toread := by omega
          rw [he, Nat.sub_self, slice_zero] at hrested
          obtain ⟨workBuf', hr, ha⟩ := ih (po + tocopy) (len + 1 - tocopy) hrested
            (by omega) (by omega)
          have hend : po + tocopy + (len + 1 - tocopy) = po + (len + 1) := by omega
          rw [hend] at hr ha
          exact ⟨workBuf', hr, ha⟩
      obtain ⟨workBuf', hr, ha⟩ := hrun
      refine ⟨workBuf', ?_, ha⟩
      have hjoin : slice payload po tocopy ++ slice payload (po + tocopy) (len + 1 - tocopy) =
          slice payload po (len + 1) := by
        rw [slice_append_slice]
        congr 1
        omega
      rw [refill, ← htoread, readData_ok hroom]
      simp only [bind, Except.bind, hstore, hfill, hfull, ← htocopy, hcopy, hconsume, hr, hjoin]

theorem keepHelper_ahead {payload : List UInt8} {po : ℕ} {workBuf workBuf' : StreamBuffer}
    (h : Ahead payload po workBuf) (hk : keepHelper payload po workBuf = some workBuf') :
    Ahead payload po workBuf' := by
  unfold keepHelper at hk
  split_ifs at hk
  cases hk
  exact h

theorem produceBuffered_reads {payload : List UInt8} {workBuf : StreamBuffer} {po len : ℕ}
    (h : Ahead payload po workBuf) (hle : po + len ≤ payload.length) :
    ∃ locals, produceBuffered payload workBuf po len = .ok (slice payload po len, locals) ∧
      ∀ workBuf', locals = some workBuf' → Ahead payload (po + len) workBuf' := by
  obtain ⟨r, hr, hholds⟩ := h
  have hlen : (slice payload po r).length = r := length_slice_of_le hr
  have hfull := hholds.fullbytes_eq
  have hmin : min len (payload.length - po) = len := by omega
  unfold produceBuffered
  simp only [hmin]
  split_ifs with hin
  · have hcopy := hholds.copyOut (n := len) (by omega)
    obtain ⟨rested, hconsume, hrested⟩ := hholds.consume (n := len) (by omega)
    rw [take_slice (by omega)] at hcopy
    rw [drop_slice] at hrested
    refine ⟨keepHelper payload (po + len) rested, ?_, fun _ => keepHelper_ahead ?_⟩
    · simp only [bind, Except.bind, hcopy, hconsume]
    · exact ⟨r - len, by omega, hrested⟩
  · obtain ⟨emptied, hdrain, hempty⟩ := drain_holds hholds
    obtain ⟨workBuf', hrefill, ha⟩ := refill_reads payload (len - r) (po + r) (len - r)
      hempty (by omega) le_rfl
    have hend : po + r + (len - r) = po + len := by omega
    have hjoin : slice payload po r ++ slice payload (po + r) (len - r) = slice payload po len := by
      rw [slice_append_slice]
      congr 1
      omega
    rw [hend] at hrefill ha
    refine ⟨keepHelper payload (po + len) workBuf', ?_, fun _ => keepHelper_ahead ha⟩
    simp only [bind, Except.bind, hdrain, hempty.tailbytes_eq, if_true, hlen, hrefill, hjoin]

theorem produceData_reads {payload : List UInt8} {locals : Option StreamBuffer} {po len : ℕ}
    (h : ∀ workBuf, locals = some workBuf → Ahead payload po workBuf)
    (hle : po + len ≤ payload.length) :
    ∃ locals', produceData payload locals po len = .ok (slice payload po len, locals') ∧
      ∀ workBuf, locals' = some workBuf → Ahead payload (po + len) workBuf := by
  cases locals with
  | some workBuf => exact produceBuffered_reads (h workBuf rfl) hle
  | none =>
    refine ⟨none, ?_, by simp⟩
    have hmin : min len (payload.length - po) = len := by omega
    simp only [produceData, hmin, readData_ok hle, bind, Except.bind]

/-- The payload block as `generate` leaves it, with or without a work buffer: its contents are
the preamble, and no CRC follows the payload. -/
structure PayloadBlock (payload : List UInt8) (block : BlockInfo) : Prop where
  type_eq : block.type = .payload
  dataOffset_eq : block.dataOffset = block.contents.length
  dataLength_eq : block.dataLength = payload.length
  crcLength_eq : block.crcLength = 0

/-- The bytes of a block: the preamble and the payload, or the contents up to `full_length`. -/
def wire (payload : List UInt8) (block : BlockInfo) : List UInt8 :=
  if block.type = .payload then block.contents ++ payload else block.contents.take block.fullLength

/-- The work buffer of the payload block fits a request at `offset`. -/
def Ready (payload : List UInt8) (block : BlockInfo) (offset : ℕ) : Prop :=
  ∀ workBuf, block.locals = some workBuf → Ahead payload (offset - block.dataOffset) workBuf

namespace PayloadBlock
variable {payload : List UInt8} {block : BlockInfo}

theorem setLocals (h : PayloadBlock payload block) (l : Option StreamBuffer) :
    PayloadBlock payload (block.setLocals l) := ⟨h.1, h.2, h.3, h.4⟩

theorem wire_eq (h : PayloadBlock payload block) : wire payload block = block.contents ++ payload :=
  if_pos h.type_eq

theorem fullLength_eq (h : PayloadBlock payload block) :
    block.fullLength = block.contents.length + payload.length := by
  unfold BlockInfo.fullLength
  rw [h.dataOffset_eq, h.dataLength_eq, h.crcLength_eq, Nat.add_zero]

theorem length_wire (h : PayloadBlock payload block) :
    (wire payload block).length = block.fullLength := by
  rw [h.wire_eq, h.fullLength_eq, List.length_append]

end PayloadBlock

@[simp] theorem wire_setLocals (payload : List UInt8) (block : BlockInfo) (l : Option StreamBuffer) :
    wire payload (block.setLocals l) = wire payload block := rfl

theorem openHelper_eq (payload : List UInt8) (block : BlockInfo) (offset len : ℕ) :
    ∃ l, openHelper payload block offset len = block.setLocals l := by
  unfold openHelper
  split_ifs
  · exact ⟨_, rfl⟩
  · exact ⟨block.locals, rfl⟩

theorem openHelper_ready {payload : List UInt8} {block : BlockInfo} {offset : ℕ} (len : ℕ)
    (h : Ready payload block offset) : Ready payload (openHelper payload block offset len) offset := by
  unfold openHelper
  split_ifs with hopen
  · intro workBuf hw
    cases hw
    obtain ⟨rfl, -, -⟩ := hopen
    exact ⟨0, by simp, by simpa using StreamBuffer.new_holds _⟩
  · exact h

theorem producePreamble_eq {block : BlockInfo} (h : block.dataOffset ≤ block.contents.length)
    (offset len : ℕ) : producePreamble block offset len =
      .ok (slice block.contents offset (min len (block.dataOffset - offset))) := by
  unfold producePreamble copyOut
  split_ifs with hlt hle
  · rfl
  · omega
  · rw [show min len (block.dataOffset - offset) = 0 by omega, slice_zero]

theorem producePayload_spec {payload : List UInt8} {block : BlockInfo} {offset len : ℕ}
    (hb : PayloadBlock payload block) (hr : Ready payload block offset)
    (hle : offset + len ≤ block.fullLength) :
    ∃ l, producePayload payload block offset len =
        .ok (slice (wire payload block) offset len, block.setLocals l) ∧
      Ready payload (block.setLocals l) (offset + len) := by
  obtain ⟨l₀, hopen⟩ := openHelper_eq payload block offset len
  have hready := openHelper_ready len hr
  have hdata := hb.dataOffset_eq
  rw [hb.fullLength_eq] at hle
  rw [hopen] at hready
  set tocopy := min len (block.dataOffset - offset) with htocopy
  have hlen : (slice block.contents offset tocopy).length = tocopy := by
    rw [length_slice]
    omega
  unfold producePayload
  rw [hopen, hb.wire_eq]
  have hpre := producePreamble_eq
    (show (block.setLocals l₀).dataOffset ≤ (block.setLocals l₀).contents.length from hdata.le)
    offset len
  simp only [hpre, bind, Except.bind,
    BlockInfo.setLocals_contents, BlockInfo.setLocals_dataOffset, BlockInfo.setLocals_locals,
    ← htocopy, hlen]
  split_ifs with hdone
  · refine ⟨l₀, ?_, ?_⟩
    · rcases Nat.eq_zero_or_pos len with rfl | hpos
      · simp [show tocopy = 0 by omega]
      · rw [slice_append_left (by omega), show tocopy = len by omega]
    · intro workBuf hw
      have hzero : offset + len - block.dataOffset = offset - block.dataOffset := by omega
      simpa [hzero] using hready workBuf hw
  · have hpo : offset + tocopy - block.dataOffset = offset - block.dataOffset := by omega
    obtain ⟨l, hread, ha⟩ := produceData_reads (show ∀ workBuf, l₀ = some workBuf →
      Ahead payload (offset - block.dataOffset) workBuf from hready)
      (show offset - block.dataOffset + (len - tocopy) ≤ payload.length by omega)
    refine ⟨l, ?_, fun workBuf hw => ?_⟩
    · rw [hpo, hread]
      change Except.ok (slice block.contents offset tocopy ++
        slice payload (offset - block.dataOffset) (len - tocopy), block.setLocals l) = _
      congr 2
      rcases le_total offset block.contents.length with hin | hout
      · rw [slice_append_over hin (by omega), show offset - block.dataOffset = 0 by omega,
          slice_eq_take, show block.contents.length - offset = tocopy by omega,
          show offset + len - block.contents.length = len - tocopy by omega]
      · rw [slice_append_right hout, show tocopy = 0 by omega, slice_zero, hdata]
        rfl
    · have hend : offset + len - block.dataOffset = offset - block.dataOffset + (len - tocopy) := by
        omega
      simpa [hend] using ha workBuf hw

/-! ## The blocks of a bundle -/

/-- A block other than the payload as `generate` leaves it: it is not empty and its contents
reach to `full_length`. -/
structure EncodedBlock (block : BlockInfo) : Prop where
  type_ne : block.type ≠ .payload
  fullLength_pos : 0 < block.fullLength
  fullLength_le : block.fullLength ≤ block.contents.length

namespace EncodedBlock
variable {block : BlockInfo}

theorem length_wire (h : EncodedBlock block) (payload : List UInt8) :
    (wire payload block).length = block.fullLength := by
  have hle := h.fullLength_le
  unfold wire
  rw [if_neg h.type_ne, List.length_take]
  omega

theorem produceBlock_eq (h : EncodedBlock block) (payload : List UInt8) {offset len : ℕ}
    (hoff : offset < block.fullLength) (hle : offset + len ≤ block.fullLength) :
    produceBlock payload block offset len = .ok (slice (wire payload block) offset len, block) := by
  have hfull := h.fullLength_le
  unfold produceBlock produceContents copyOut wire
  rw [if_neg h.type_ne, if_neg h.type_ne, if_pos ⟨by omega, by omega⟩, if_pos (by omega),
    ← slice_eq_take, slice_slice hle, Nat.zero_add]
  rfl

end EncodedBlock

/-- The bytes between the opening and the closing byte. -/
def body (payload : List UInt8) (blocks : List BlockInfo) : List UInt8 :=
  (blocks.map (wire payload)).flatten

@[simp] theorem body_nil (payload : List UInt8) : body payload [] = [] := rfl

@[simp] theorem body_cons (payload : List UInt8) (block : BlockInfo) (blocks : List BlockInfo) :
    body payload (block :: blocks) = wire payload block ++ body payload blocks := rfl

theorem body_append (payload : List UInt8) (l r : List BlockInfo) :
    body payload (l ++ r) = body payload l ++ body payload r := by simp [body]

@[simp] theorem length_body_cons (payload : List UInt8) (block : BlockInfo)
    (blocks : List BlockInfo) : (body payload (block :: blocks)).length =
      (wire payload block).length + (body payload blocks).length := by simp

theorem length_body_of_encoded {blocks : List BlockInfo} (h : ∀ b ∈ blocks, EncodedBlock b)
    (payload : List UInt8) :
    (body payload blocks).length = (blocks.map BlockInfo.fullLength).sum := by
  induction blocks with
  | nil => rfl
  | cons b blocks ih =>
    rw [length_body_cons, (h b List.mem_cons_self).length_wire,
      ih fun c hc => h c (List.mem_cons_of_mem b hc), List.map_cons, List.sum_cons]

/-- The loop over the blocks copies what is asked for, as far as there is something. Only the
work buffer of the payload block can change. -/
theorem copyBlocks_spec {payload : List UInt8} {front : List BlockInfo} {pay : BlockInfo}
    {offset : ℕ} (len : ℕ) (hfront : ∀ b ∈ front, EncodedBlock b) (hpay : PayloadBlock payload pay)
    (hoff : ∀ b ∈ front.head?, offset < b.fullLength) (hend : front = [] → offset ≤ pay.fullLength)
    (hr : Ready payload pay (offset - (body payload front).length)) :
    ∃ l, copyBlocks payload (front ++ [pay]) offset len =
        .ok (slice (body payload (front ++ [pay])) offset len,
          len - ((body payload (front ++ [pay])).length - offset), front ++ [pay.setLocals l]) ∧
      (offset + len ≤ (body payload (front ++ [pay])).length →
        Ready payload (pay.setLocals l) (offset + len - (body payload front).length)) := by
  induction front generalizing offset len with
  | nil =>
    have hle := hend rfl
    have hwire := hpay.length_wire
    set tocopy := min len (pay.fullLength - offset) with htocopy
    obtain ⟨l, hprod, hready⟩ := producePayload_spec hpay (show Ready payload pay offset from hr)
      (show offset + tocopy ≤ pay.fullLength by omega)
    have hcut : slice (wire payload pay) offset tocopy = slice (wire payload pay) offset len := by
      rw [htocopy, ← hwire, slice_min]
    rw [hcut] at hprod
    refine ⟨l, ?_, fun hall => ?_⟩
    · simp only [List.nil_append, copyBlocks, ← htocopy, produceBlock, hpay.type_eq, if_true, hprod,
        bind, Except.bind, BlockInfo.setLocals_type, body_cons, body_nil, List.append_nil, hwire]
      split_ifs with hdone hshort
      · rw [show len - (pay.fullLength - offset) = 0 by omega]
      · omega
      · rw [show len - tocopy = len - (pay.fullLength - offset) by omega]
    · have hfits : tocopy = len := by
        simp only [List.nil_append, body_cons, body_nil, List.append_nil, hwire] at hall
        omega
      rw [← hfits]
      exact hready
  | cons b front ih =>
    have hb := hfront b (List.mem_cons_self)
    have hpos := hoff b rfl
    have hwire := hb.length_wire payload
    set tocopy := min len (b.fullLength - offset) with htocopy
    have hprod := hb.produceBlock_eq payload hpos (show offset + tocopy ≤ b.fullLength by omega)
    simp only [List.cons_append, copyBlocks, ← htocopy, hprod, bind, Except.bind, if_neg hb.type_ne,
      body_cons, List.length_append, hwire]
    rw [body_cons, List.length_append, hwire] at hr
    split_ifs with hdone hshort
    · refine ⟨pay.locals, ?_, fun _ => ?_⟩
      · rw [slice_append_left (by omega), show tocopy = len by omega,
          show len - (b.fullLength + (body payload (front ++ [pay])).length - offset) = 0 by omega]
        rfl
      · rw [show offset + len - (b.fullLength + (body payload front).length) =
          offset - (b.fullLength + (body payload front).length) by omega]
        exact hr
    · omega
    · have hfresh : Ready payload pay (0 - (body payload front).length) := by
        rw [show offset - (b.fullLength + (body payload front).length) = 0 by omega] at hr
        rw [Nat.zero_sub]
        exact hr
      obtain ⟨l, hrest, hready⟩ := ih (len - tocopy)
        (fun c hc => hfront c (List.mem_cons_of_mem b hc))
        (fun c hc => (hfront c (List.mem_cons_of_mem b (List.mem_of_mem_head? hc))).fullLength_pos)
        (fun _ => Nat.zero_le _) hfresh
      refine ⟨l, ?_, fun hall => ?_⟩
      · rw [hrest, slice_append_over (by omega) (by omega), hwire, slice_eq_take,
          show b.fullLength - offset = tocopy by omega,
          show offset + len - b.fullLength = len - tocopy by omega,
          show len - (b.fullLength + (body payload (front ++ [pay])).length - offset) =
            len - tocopy - ((body payload (front ++ [pay])).length - 0) by omega]
      · have hstep := hready (by omega)
        rw [show offset + len - (b.fullLength + (body payload front).length) =
          0 + (len - tocopy) - (body payload front).length by omega]
        exact hstep

/-- The loop and the break byte, at a block that is not skipped. -/
theorem produceFrom_block {payload frame : List UInt8} {block : BlockInfo}
    {blocks blocks' : List BlockInfo} {offset len : ℕ} (hoff : offset < block.fullLength)
    (hle : offset ≤ (body payload (block :: blocks)).length)
    (hcopy : copyBlocks payload (block :: blocks) offset len =
      .ok (slice (body payload (block :: blocks)) offset len,
        len - ((body payload (block :: blocks)).length - offset), blocks')) :
    produceFrom payload frame (frame.length + len) (block :: blocks) offset len =
      .ok { bytes := frame ++ slice (body payload (block :: blocks) ++ [0xff]) offset len
            produced :=
              (frame ++ slice (body payload (block :: blocks) ++ [0xff]) offset len).length
            last := decide ((body payload (block :: blocks)).length < offset + len)
            blocks := blocks' } := by
  unfold produceFrom
  simp only [if_neg (Nat.not_le.mpr hoff), hcopy, bind, Except.bind]
  generalize body payload (block :: blocks) = bytes at hle ⊢
  split_ifs with hroom
  · rw [slice_append_singleton hle (by omega)]
    simp only [List.append_assoc, List.length_append, length_slice, List.length_singleton,
      Except.ok.injEq, Chunk.mk.injEq, true_and, and_true]
    refine ⟨by omega, ?_⟩
    rw [eq_comm, decide_eq_true_eq]
    omega
  · rw [slice_append_left (by omega)]
    simp only [List.length_append, length_slice, Except.ok.injEq, Chunk.mk.injEq, true_and, and_true]
    refine ⟨by omega, ?_⟩
    rw [eq_comm, decide_eq_false_iff_not]
    omega

theorem produceFrom_spec {payload : List UInt8} (frame : List UInt8) {front : List BlockInfo}
    {pay : BlockInfo} {offset : ℕ} (len : ℕ) (hfront : ∀ b ∈ front, EncodedBlock b) (hpay : PayloadBlock payload pay)
    (hle : offset ≤ (body payload (front ++ [pay])).length)
    (hopen : offset < (body payload (front ++ [pay])).length ∨ frame = [] ∧ 1 ≤ len)
    (hr : Ready payload pay (offset - (body payload front).length)) :
    ∃ l, produceFrom payload frame (frame.length + len) (front ++ [pay]) offset len =
        .ok { bytes := frame ++ slice (body payload (front ++ [pay]) ++ [0xff]) offset len
              produced := (frame ++ slice (body payload (front ++ [pay]) ++ [0xff]) offset len).length
              last := decide ((body payload (front ++ [pay])).length < offset + len)
              blocks := front ++ [pay.setLocals l] } ∧
      (offset + len ≤ (body payload (front ++ [pay])).length →
        Ready payload (pay.setLocals l) (offset + len - (body payload front).length)) := by
  induction front generalizing offset with
  | nil =>
    have hwire := hpay.length_wire
    by_cases hskip : pay.fullLength ≤ offset
    · have hbody : (body payload ([] ++ [pay])).length = pay.fullLength := by simp [hwire]
      obtain ⟨hframe, hlen⟩ := hopen.resolve_left (by omega)
      subst hframe
      refine ⟨pay.locals, ?_, fun hall => by omega⟩
      have hat : offset = (body payload [pay]).length := by
        simp only [List.nil_append] at hle hbody
        omega
      have hout : slice (body payload [pay] ++ [0xff]) offset len = [0xff] := by
        rw [hat, slice_append_singleton le_rfl (by omega)]
        simp [slice]
      have hlast : (body payload [pay]).length < offset + len := by omega
      simp only [List.nil_append, hout, produceFrom, if_pos hskip, bind, Except.bind, hlast,
        decide_true, List.length_singleton]
      rfl
    · obtain ⟨l, hcopy, hready⟩ := copyBlocks_spec len (by simp) hpay (by simp)
        (fun _ => (Nat.not_le.mp hskip).le) hr
      exact ⟨l, produceFrom_block (Nat.not_le.mp hskip) hle hcopy, hready⟩
  | cons b front ih =>
    have hb := hfront b (List.mem_cons_self)
    have hwire := hb.length_wire payload
    by_cases hskip : b.fullLength ≤ offset
    · have hlength : (body payload (b :: front ++ [pay])).length =
          b.fullLength + (body payload (front ++ [pay])).length := by simp [hwire]
      have hfronts : (body payload (b :: front)).length =
          b.fullLength + (body payload front).length := by simp [hwire]
      rw [hfronts] at hr
      obtain ⟨l, hrest, hready⟩ := ih (fun c hc => hfront c (List.mem_cons_of_mem b hc))
        (show offset - b.fullLength ≤ (body payload (front ++ [pay])).length by omega)
        (hopen.imp_left fun h => by omega)
        (by rwa [Nat.sub_sub])
      have hout : slice (body payload (b :: front ++ [pay]) ++ [0xff]) offset len =
          slice (body payload (front ++ [pay]) ++ [0xff]) (offset - b.fullLength) len := by
        rw [List.cons_append, body_cons, List.append_assoc, slice_append_right (by omega), hwire]
      refine ⟨l, ?_, fun hall => ?_⟩
      · rw [hout, List.cons_append, produceFrom, if_pos hskip, hrest]
        simp only [bind, Except.bind, Except.ok.injEq, Chunk.mk.injEq, true_and, List.cons_append,
          and_true, decide_eq_decide]
        rw [List.cons_append] at hlength
        omega
      · have hnext := hready (by omega)
        rw [hfronts, show offset + len - (b.fullLength + (body payload front).length) =
          offset - b.fullLength + len - (body payload front).length by omega]
        exact hnext
    · obtain ⟨l, hcopy, hready⟩ := copyBlocks_spec len hfront hpay
        (by simpa using Nat.not_le.mp hskip) (by simp) hr
      exact ⟨l, produceFrom_block (Nat.not_le.mp hskip) hle hcopy, hready⟩

/-! ## Transmission -/

/-- The bytes of a bundle: the blocks between the opening and the closing byte of an indefinite
length array. -/
def image (payload : List UInt8) (blocks : List BlockInfo) : List UInt8 :=
  0x9f :: (body payload blocks ++ [0xff])

theorem produce_spec {payload : List UInt8} {front : List BlockInfo} {pay : BlockInfo}
    {offset len : ℕ} (hfront : ∀ b ∈ front, EncodedBlock b) (hpay : PayloadBlock payload pay)
    (hne : front ≠ []) (hlen : 1 ≤ len) (hoff : offset < (image payload (front ++ [pay])).length)
    (hr : Ready payload pay (offset - 1 - (body payload front).length)) :
    ∃ chunk l, produce payload (front ++ [pay]) offset len = .ok chunk ∧
      chunk.bytes = slice (image payload (front ++ [pay])) offset len ∧
      chunk.produced = chunk.bytes.length ∧
      chunk.last = decide ((image payload (front ++ [pay])).length ≤ offset + len) ∧
      chunk.blocks = front ++ [pay.setLocals l] ∧
      (chunk.last = false →
        Ready payload (pay.setLocals l) (offset + len - 1 - (body payload front).length)) := by
  have hlength : (image payload (front ++ [pay])).length =
      (body payload (front ++ [pay])).length + 2 := by simp [image]
  have hpos : 0 < (body payload (front ++ [pay])).length := by
    obtain ⟨b, rest, rfl⟩ := List.exists_cons_of_ne_nil hne
    have hb := hfront b List.mem_cons_self
    have hfull := hb.fullLength_pos
    rw [List.cons_append, length_body_cons, hb.length_wire]
    omega
  unfold produce
  rw [if_neg (by omega), if_neg (by simp)]
  rcases Nat.eq_zero_or_pos offset with rfl | hstart
  · obtain ⟨l, hfrom, hready⟩ := produceFrom_spec [0x9f] (len - 1) hfront hpay
      (Nat.zero_le _) (Or.inl hpos) hr
    rw [if_pos rfl]
    rw [List.length_singleton, show 1 + (len - 1) = len by omega] at hfrom
    refine ⟨_, l, hfrom, ?_, rfl, ?_, rfl, fun h => ?_⟩
    · obtain ⟨n, rfl⟩ : ∃ n, len = n + 1 := ⟨len - 1, by omega⟩
      simp [slice, image]
    · rw [decide_eq_decide]
      omega
    · have hshort := of_decide_eq_false h
      simpa [show 0 + len - 1 = 0 + (len - 1) by omega] using hready (by omega)
  · obtain ⟨l, hfrom, hready⟩ := produceFrom_spec [] len hfront hpay
      (show offset - 1 ≤ _ by omega) (Or.inr ⟨rfl, hlen⟩) hr
    rw [if_neg (by omega)]
    rw [List.length_nil, Nat.zero_add] at hfrom
    refine ⟨_, l, hfrom, ?_, rfl, ?_, rfl, fun h => ?_⟩
    · obtain ⟨n, rfl⟩ : ∃ n, offset = n + 1 := ⟨offset - 1, by omega⟩
      simp [slice, image]
    · rw [decide_eq_decide]
      omega
    · have hshort := of_decide_eq_false h
      have hnext := hready (by omega)
      rw [show offset + len - 1 = offset - 1 + len by omega]
      exact hnext

/-- A list of blocks as `generate_blocks` leaves it: the primary block first, the payload block
last and not yet read from. -/
structure Generated (payload : List UInt8) (blocks : List BlockInfo) : Prop where
  first : ∃ b ∈ blocks.head?, b.type = .primary
  last : ∃ front pay, blocks = front ++ [pay] ∧ (∀ b ∈ front, EncodedBlock b) ∧
    PayloadBlock payload pay ∧ pay.locals = none

/-- The calls that gave `chunks` have sent `bytes`. Every call but the last returns what it was
asked for, and the last one is the one that sends the closing byte. -/
structure Sends (bytes : List UInt8) (sizes : ℕ → ℕ) (chunks : List Chunk) : Prop where
  bytes_eq : chunks.flatMap Chunk.bytes = bytes
  produced_eq : ∀ c ∈ chunks, c.produced = c.bytes.length
  produced_le : ∀ j c, chunks[j]? = some c → c.produced ≤ sizes j
  full : ∀ j c, chunks[j]? = some c → j + 1 < chunks.length → c.produced = sizes j
  last_iff : ∀ j c, chunks[j]? = some c → (c.last = true ↔ j + 1 = chunks.length)
  closing : ∀ c ∈ chunks, c.last = true → c.bytes.getLast? = some 0xff

theorem Sends.single {c : Chunk} {sizes : ℕ → ℕ} (hp : c.produced = c.bytes.length)
    (hs : c.produced ≤ sizes 0) (hl : c.last = true) (hc : c.bytes.getLast? = some 0xff) :
    Sends c.bytes sizes [c] where
  bytes_eq := by simp
  produced_eq := by simpa using hp
  produced_le := by
    intro j d hd
    obtain ⟨rfl, rfl⟩ : j = 0 ∧ c = d := by simpa [List.getElem?_singleton] using hd
    exact hs
  full := by simp
  last_iff := by
    intro j d hd
    obtain ⟨rfl, rfl⟩ : j = 0 ∧ c = d := by simpa [List.getElem?_singleton] using hd
    simp [hl]
  closing := by simpa [hl] using hc

theorem Sends.cons {c : Chunk} {rest : List UInt8} {sizes : ℕ → ℕ} {chunks : List Chunk}
    (h : Sends rest (fun j => sizes (j + 1)) chunks) (hne : chunks ≠ [])
    (hp : c.produced = c.bytes.length) (hs : c.produced = sizes 0) (hl : c.last = false) :
    Sends (c.bytes ++ rest) sizes (c :: chunks) where
  bytes_eq := by simp [h.bytes_eq]
  produced_eq := by simpa [hp] using h.produced_eq
  produced_le := by
    intro j d hd
    cases j with
    | zero => simp_all
    | succ j => exact h.produced_le j d (by simpa using hd)
  full := by
    intro j d hd hj
    cases j with
    | zero => simp_all
    | succ j => exact h.full j d (by simpa using hd) (by simpa using hj)
  last_iff := by
    intro j d hd
    cases j with
    | zero => simp_all
    | succ j => simpa using h.last_iff j d (by simpa using hd)
  closing := by simpa [hl] using h.closing

theorem transmit_sends {payload : List UInt8} {front : List BlockInfo} {pay : BlockInfo}
    {sizes : ℕ → ℕ} (hfront : ∀ b ∈ front, EncodedBlock b) (hpay : PayloadBlock payload pay)
    (hne : front ≠ []) (hsizes : ∀ i, 1 ≤ sizes i) (calls i offset : ℕ)
    (l : Option StreamBuffer) (hoff : offset < (image payload (front ++ [pay])).length)
    (hcalls : (image payload (front ++ [pay])).length ≤ offset + calls)
    (hr : Ready payload (pay.setLocals l) (offset - 1 - (body payload front).length)) :
    ∃ chunks, transmit payload sizes calls i offset (front ++ [pay.setLocals l]) = .ok chunks ∧
      Sends ((image payload (front ++ [pay])).drop offset) (fun j => sizes (i + j)) chunks := by
  induction calls generalizing i offset l with
  | zero => omega
  | succ calls ih =>
    have himage : ∀ l, image payload (front ++ [pay.setLocals l]) = image payload (front ++ [pay]) := by
      intro l
      simp [image, body_append]
    obtain ⟨chunk, l', hprod, hbytes, hproduced, hlast, hblocks, hready⟩ :=
      produce_spec hfront (hpay.setLocals l) hne (hsizes i) (by rwa [himage]) hr
    rw [himage] at hbytes hlast
    have hlen : chunk.bytes.length = min (sizes i) ((image payload (front ++ [pay])).length - offset) := by
      rw [hbytes, length_slice]
    unfold transmit
    rw [transmitWith_ok hprod]
    split_ifs with hend
    · have hall : (image payload (front ++ [pay])).length ≤ offset + sizes i := by simpa [hlast] using hend
      have hdrop : chunk.bytes = (image payload (front ++ [pay])).drop offset := by
        rw [hbytes]
        exact List.take_of_length_le (by simp; omega)
      refine ⟨[chunk], rfl, ?_⟩
      rw [← hdrop]
      refine Sends.single hproduced (by simp; omega) hend ?_
      rw [hdrop, List.getLast?_drop, if_neg (by omega)]
      rw [image, ← List.cons_append]
      exact List.getLast?_concat
    · have hshort : offset + sizes i < (image payload (front ++ [pay])).length := by
        simpa [hlast] using hend
      have hsize := hsizes i
      have hfull : chunk.produced = sizes i := by omega
      obtain ⟨chunks, hrun, hsends⟩ := ih (i + 1) (offset + sizes i) l' hshort (by omega)
        (hready (by simpa using hend))
      have hnil : chunks ≠ [] := by
        rintro rfl
        have hempty := congrArg List.length hsends.bytes_eq
        simp only [List.flatMap_nil, List.length_nil, List.length_drop] at hempty
        omega
      have hcut : (image payload (front ++ [pay])).drop offset =
          chunk.bytes ++ (image payload (front ++ [pay])).drop (offset + sizes i) := by
        rw [hbytes, slice, ← List.drop_drop, List.take_append_drop]
      refine ⟨chunk :: chunks, ?_, ?_⟩
      · rw [hblocks, hfull, BlockInfo.setLocals_setLocals]
        exact congrArg (Except.map (chunk :: ·)) hrun
      · rw [hcut]
        refine Sends.cons ?_ hnil hproduced (by simpa using hfull) (by simpa using hend)
        simpa [Nat.add_comm, Nat.add_left_comm] using hsends

/-- However the transmission is cut into chunks, it sends the blocks in order between the
opening and the closing byte, in at most as many calls as there are bytes. -/
theorem transmit_generated {payload : List UInt8} {blocks : List BlockInfo} {sizes : ℕ → ℕ}
    (h : Generated payload blocks) (hsizes : ∀ i, 1 ≤ sizes i) :
    (image payload blocks).length = totalLength blocks ∧
      ∃ chunks, transmit payload sizes (totalLength blocks) 0 0 blocks = .ok chunks ∧
        Sends (image payload blocks) sizes chunks := by
  obtain ⟨front, pay, rfl, hfront, hpay, hfresh⟩ := h.last
  have hne : front ≠ [] := by
    rintro rfl
    obtain ⟨b, hb, htype⟩ := h.first
    obtain rfl : pay = b := by simpa using hb
    exact absurd (hpay.type_eq.symm.trans htype) (by decide)
  have hlength : (image payload (front ++ [pay])).length = totalLength (front ++ [pay]) := by
    have hbody := length_body_of_encoded hfront payload
    simp only [image, totalLength, body_append, List.length_cons, List.length_append, List.map_append,
      List.sum_append, hbody, body_cons, body_nil, hpay.length_wire, List.map_cons, List.map_nil,
      List.sum_cons, List.sum_nil, List.length_nil]
    omega
  refine ⟨hlength, ?_⟩
  have hstart : pay.setLocals none = pay := by rw [← hfresh]; rfl
  obtain ⟨chunks, hrun, hsends⟩ := transmit_sends hfront hpay hne hsizes (totalLength (front ++ [pay]))
    0 0 none (by simp [image]) (by omega) (fun _ hl => by simp at hl)
  rw [hstart] at hrun
  exact ⟨chunks, hrun, by simpa using hsends⟩

/-- A primary block, an extension block and the preamble of the payload block. -/
def threeBlocks : List BlockInfo :=
  [{ type := .primary, contents := [0x88, 7], dataLength := 2 },
   { type := .extension 7, contents := [0x85, 7, 2], dataLength := 3 },
   { type := .payload, contents := [0x85, 1, 1, 0, 0, 0x43], dataOffset := 6, dataLength := 3 }]

theorem threeBlocks_generated : Generated [10, 11, 12] threeBlocks where
  first := ⟨_, rfl, rfl⟩
  last := by
    refine ⟨threeBlocks.take 2, _, rfl, ?_, ⟨rfl, rfl, rfl, rfl⟩, rfl⟩
    intro b hb
    have hmem : b ∈ [threeBlocks[0], threeBlocks[1]] := hb
    simp only [List.mem_cons, List.not_mem_nil, or_false] at hmem
    rcases hmem with rfl | rfl
    · exact ⟨by decide, by decide, by decide⟩
    · exact ⟨by decide, by decide, by decide⟩

/-- Chunks of two bytes cut every block. -/
theorem transmit_generated_pairs : Generated [10, 11, 12] threeBlocks ∧
    (image [10, 11, 12] threeBlocks).length = totalLength threeBlocks ∧
      ∃ chunks, transmit [10, 11, 12] (fun _ => 2) (totalLength threeBlocks) 0 0 threeBlocks =
          .ok chunks ∧ Sends (image [10, 11, 12] threeBlocks) (fun _ => 2) chunks :=
  ⟨threeBlocks_generated, transmit_generated threeBlocks_generated fun _ => by decide⟩

end Dtnme.Bundling
