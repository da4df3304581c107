import Dtnme.Library.SparseFile
import Dtnme.Library.Transition
import Dtnme.Ltp.Session

/-! # The file of a session

A session that spools to disk stages contiguous payloads in one of two buffers before
it writes them: the payload of the last segment, or the work buffer. The file with the
staged bytes laid over it is at every step the file that immediate writes would give.
The mode with the disk I/O kludges is outside this model.
-/

namespace Dtnme.Ltp
open Library

/-- The ways in which storing in the file does not return. -/
inductive StoreFault
  | assertFailed
  | overrun
  | session (fault : Fault)
  deriving DecidableEq, Repr

/-- How one seek and write ends; a write may leave out the last bytes of what it was given. -/
inductive DiskAnswer
  | seekFails
  | writeFails
  | wrote (missing : ℕ)
  deriving DecidableEq, Repr

def DiskAnswer.fails : DiskAnswer → Bool
  | .wrote _ => false
  | _ => true

/-- A write that succeeds without taking everything. -/
def DiskAnswer.short : DiskAnswer → Bool
  | .wrote missing => missing != 0
  | _ => false

theorem DiskAnswer.eq_wrote {answer : DiskAnswer} (hfails : answer.fails = false)
    (hshort : answer.short = false) : answer = .wrote 0 := by
  cases answer with
  | wrote missing => simpa [short] using hshort
  | seekFails => simp [fails] at hfails
  | writeFails => simp [fails] at hfails

/-- The members of a session that deal with its file. `workBuf` is the part of the work buffer
below `work_buf_idx_`. -/
structure SessionFile where
  useFile : Bool := true
  diskIoError : Bool := false
  dirPathSet : Bool := false
  hasDataFile : Bool := false
  isOpen : Bool := false
  content : ℕ → Option UInt8 := fun _ => none
  bytesWrittenToDisk : ℕ := 0
  workBufAllocated : Bool := false
  workBuf : List UInt8 := []
  workBufSize : ℕ := 0
  workBufAvailable : ℕ := 0
  workBufFileOffset : ℕ := 0
  prevSegPayload : Option (List UInt8) := none
  prevSegPayloadOffset : ℕ := 0
  prevSegPayloadLen : ℕ := 0

/-- `work_buf_alloc_size_`. -/
def workBufAllocSize : ℕ := 10000000

/-- A segment whose payload is as long as it says, and not empty. -/
structure Carries (ds : LTPDataSegment) : Prop where
  length : ds.payload.length = ds.payloadLength
  nonempty : 0 < ds.payloadLength

namespace SessionFile

/-! ## Writing -/

/-- Seek and write. -/
def writeOut (f : SessionFile) (answer : DiskAnswer) (offset : ℕ) (data : List UInt8) :
    Bool × SessionFile :=
  match answer with
  | .wrote missing =>
    let part := data.take (data.length - missing)
    (true, { f with
      content := writeAt f.content offset part
      bytesWrittenToDisk := f.bytesWrittenToDisk + part.length })
  | _ => (false, { f with diskIoError := true })

/-- `write_work_buf_to_file`: the buffer is emptied whatever the result. -/
def writeWorkBuf (f : SessionFile) (answer : DiskAnswer) : Bool × SessionFile :=
  let r := f.writeOut answer f.workBufFileOffset f.workBuf
  (r.1, { r.2 with
    workBuf := [], workBufFileOffset := 0, workBufAvailable := r.2.workBufSize })

/-- `write_prev_seg_to_file`: the payload is dropped whatever the result. -/
def writePrevSeg (f : SessionFile) (answer : DiskAnswer) : Bool × SessionFile :=
  let r := f.writeOut answer f.prevSegPayloadOffset (f.prevSegPayload.getD [])
  (r.1, { r.2 with prevSegPayload := none, prevSegPayloadOffset := 0, prevSegPayloadLen := 0 })

/-- Keep the payload until the next segment shows whether it is contiguous. -/
def savePrevSeg (f : SessionFile) (ds : LTPDataSegment) : SessionFile :=
  { f with
    prevSegPayload := some ds.payload
    prevSegPayloadOffset := ds.offset
    prevSegPayloadLen := ds.payloadLength }

/-! ## Staging -/

/-- A `memcpy` to the end of the filled part of the work buffer. -/
def copyToWorkBuf (f : SessionFile) (data : List UInt8) (len : ℕ) :
    Except StoreFault SessionFile :=
  if f.workBufSize < f.workBuf.length + len ∨ data.length < len then .error .overrun
  else .ok { f with
    workBuf := f.workBuf ++ data.take len, workBufAvailable := f.workBufAvailable - len }

/-- The work buffer is allocated when two segments first look as if they fit. -/
def allocWorkBuf (f : SessionFile) (len : ℕ) : SessionFile :=
  if f.workBufAllocated = false ∧ len < workBufAllocSize then
    { f with
      workBufAllocated := true, workBuf := []
      workBufSize := workBufAllocSize, workBufAvailable := workBufAllocSize }
  else f

/-- Move the kept payload to the work buffer and add the new one. -/
def combine (f : SessionFile) (ds : LTPDataSegment) : Except StoreFault SessionFile := do
  if f.workBuf ≠ [] then .error .assertFailed
  else
    let g ← f.copyToWorkBuf (f.prevSegPayload.getD []) f.prevSegPayloadLen
    let g := { g with
      workBufFileOffset := f.prevSegPayloadOffset
      prevSegPayload := none, prevSegPayloadOffset := 0, prevSegPayloadLen := 0 }
    g.copyToWorkBuf ds.payload ds.payloadLength

/-- The branch with bytes in the work buffer. -/
def stageOnWorkBuf (f : SessionFile) (answer : DiskAnswer) (ds : LTPDataSegment) :
    Except StoreFault (Bool × SessionFile) :=
  if f.prevSegPayload.isSome then .error .assertFailed
  else if ds.offset = f.workBufFileOffset + f.workBuf.length ∧
      ds.payloadLength ≤ f.workBufAvailable then do
    let g ← f.copyToWorkBuf ds.payload ds.payloadLength
    .ok (true, g)
  else
    let r := f.writeWorkBuf answer
    .ok (r.1, r.2.savePrevSeg ds)

/-- The branch with a kept payload. -/
def stageOnPrevSeg (f : SessionFile) (answer : DiskAnswer) (ds : LTPDataSegment) :
    Except StoreFault (Bool × SessionFile) :=
  if ds.offset = f.prevSegPayloadOffset + f.prevSegPayloadLen then
    let f := f.allocWorkBuf (f.prevSegPayloadLen + ds.payloadLength)
    if f.prevSegPayloadLen + ds.payloadLength < f.workBufAvailable then do
      let g ← f.combine ds
      .ok (true, g)
    else
      let r := f.writePrevSeg answer
      .ok (r.1, r.2.savePrevSeg ds)
  else
    let r := f.writePrevSeg answer
    .ok (r.1, r.2.savePrevSeg ds)

/-- `write_ds_to_file` up to the forced write. -/
def stage (f : SessionFile) (answer : DiskAnswer) (ds : LTPDataSegment) :
    Except StoreFault (Bool × SessionFile) :=
  if f.workBuf ≠ [] then f.stageOnWorkBuf answer ds
  else if f.prevSegPayloadLen ≠ 0 then f.stageOnPrevSeg answer ds
  else if f.prevSegPayload.isSome then .error .assertFailed
  else .ok (true, f.savePrevSeg ds)

/-- The forced write of what is staged; without anything staged the result stays. -/
def force (f : SessionFile) (answer : DiskAnswer) (result : Bool) : Bool × SessionFile :=
  if f.workBuf ≠ [] then f.writeWorkBuf answer
  else if f.prevSegPayloadLen ≠ 0 then f.writePrevSeg answer
  else (result, f)

/-- `write_ds_to_file`, with the answers to its first and to its forced write. -/
def writeDsToFile (f : SessionFile) (lastSeg : Bool) (first second : DiskAnswer)
    (ds : LTPDataSegment) : Except StoreFault (Bool × SessionFile) := do
  let r ← f.stage first ds
  if ds.isEndofblock || (lastSeg && r.1) then .ok (r.2.force second r.1) else .ok r

/-! ## What is staged -/

/-- The file with the staged bytes laid over it. -/
def overlay (f : SessionFile) : ℕ → Option UInt8 :=
  writeAt (writeAt f.content f.workBufFileOffset f.workBuf)
    f.prevSegPayloadOffset (f.prevSegPayload.getD [])

/-- The sizes agree, and at most one of the two buffers holds bytes. -/
structure Staged (f : SessionFile) : Prop where
  size : f.workBufSize = if f.workBufAllocated then workBufAllocSize else 0
  available : f.workBufAvailable + f.workBuf.length = f.workBufSize
  length : f.prevSegPayloadLen = (f.prevSegPayload.getD []).length
  kept : f.prevSegPayload ≠ some []
  exclusive : f.workBuf ≠ [] → f.prevSegPayload = none

/-- Neither buffer holds bytes. -/
structure Flushed (f : SessionFile) : Prop where
  workBuf : f.workBuf = []
  prevSeg : f.prevSegPayload = none

/-- Whether storing the segment writes what was staged before. -/
def flushes (f : SessionFile) (ds : LTPDataSegment) : Prop :=
  if f.workBuf ≠ [] then
    ¬ (ds.offset = f.workBufFileOffset + f.workBuf.length ∧
      ds.payloadLength ≤ f.workBufAvailable)
  else
    f.prevSegPayloadLen ≠ 0 ∧
      ¬ (ds.offset = f.prevSegPayloadOffset + f.prevSegPayloadLen ∧
        f.prevSegPayloadLen + ds.payloadLength <
          if f.workBufAllocated then f.workBufAvailable else workBufAllocSize)

instance (f : SessionFile) (ds : LTPDataSegment) : Decidable (f.flushes ds) := by
  unfold flushes
  infer_instance

/-- Whether storing the segment ends with a forced write. -/
def forces (f : SessionFile) (lastSeg : Bool) (first : DiskAnswer) (ds : LTPDataSegment) : Prop :=
  ds.isEndofblock = true ∨ (lastSeg = true ∧ ¬ (f.flushes ds ∧ first.fails = true))

instance (f : SessionFile) (lastSeg : Bool) (first : DiskAnswer) (ds : LTPDataSegment) :
    Decidable (f.forces lastSeg first ds) := inferInstanceAs (Decidable (_ ∨ _))

/-- Whether bytes get lost without a word: a write is short, or the failure of the first write
is forgotten over the success of the forced one. -/
def Loses (f : SessionFile) (lastSeg : Bool) (first second : DiskAnswer) (ds : LTPDataSegment) :
    Prop :=
  (f.flushes ds ∧ first.short = true) ∨ (f.forces lastSeg first ds ∧ second.short = true) ∨
    (f.flushes ds ∧ first.fails = true ∧ ds.isEndofblock = true ∧ second.fails = false)

instance (f : SessionFile) (lastSeg : Bool) (first second : DiskAnswer) (ds : LTPDataSegment) :
    Decidable (f.Loses lastSeg first second ds) := inferInstanceAs (Decidable (_ ∨ _))

variable {f g : SessionFile} {ds : LTPDataSegment} {answer : DiskAnswer}

/-! ## The forced write -/

theorem force_workBuf (h : f.workBuf ≠ []) (answer : DiskAnswer) (result : Bool) :
    f.force answer result = f.writeWorkBuf answer := by
  rw [force, if_pos h]

theorem force_prevSeg (h : f.workBuf = []) (hlen : f.prevSegPayloadLen ≠ 0)
    (answer : DiskAnswer) (result : Bool) : f.force answer result = f.writePrevSeg answer := by
  rw [force, if_neg (by simp [h]), if_pos hlen]

theorem Flushed.overlay (h : Flushed f) : f.overlay = f.content := by
  simp [SessionFile.overlay, h.workBuf, h.prevSeg]

theorem Staged.prevSeg_eq_none (h : Staged f) (hlen : f.prevSegPayloadLen = 0) :
    f.prevSegPayload = none := by
  have hlength := h.length
  cases hp : f.prevSegPayload with
  | none => rfl
  | some p =>
    rw [hp, hlen] at hlength
    cases p with
    | nil => exact absurd hp h.kept
    | cons b p => simp at hlength

/-- Three cases: bytes in the work buffer, a kept payload, or nothing. -/
theorem Staged.cases (h : Staged f) :
    (f.workBuf ≠ [] ∧ f.prevSegPayload = none ∧ f.prevSegPayloadLen = 0) ∨
    (f.workBuf = [] ∧ f.prevSegPayloadLen ≠ 0) ∨ Flushed f := by
  by_cases hb : f.workBuf = []
  · by_cases hlen : f.prevSegPayloadLen = 0
    · exact Or.inr (Or.inr ⟨hb, h.prevSeg_eq_none hlen⟩)
    · exact Or.inr (Or.inl ⟨hb, hlen⟩)
  · have hnone := h.exclusive hb
    exact Or.inl ⟨hb, hnone, by simp [h.length, hnone]⟩

theorem force_staged (h : Staged f) (answer : DiskAnswer) (result : Bool) :
    Staged (f.force answer result).2 ∧ Flushed (f.force answer result).2 := by
  rcases h.cases with ⟨hb, hnone, hlen⟩ | ⟨hb, hlen⟩ | hfl
  · rw [force_workBuf hb]
    cases answer <;>
      exact ⟨⟨h.size, by simp [writeWorkBuf, writeOut], h.length, h.kept, by simp [writeWorkBuf]⟩,
        rfl, hnone⟩
  · rw [force_prevSeg hb hlen]
    cases answer <;>
      exact ⟨⟨h.size, h.available, by simp [writePrevSeg], by simp [writePrevSeg], fun _ => rfl⟩,
        hb, rfl⟩
  · have hlen : f.prevSegPayloadLen = 0 := by simp [h.length, hfl.prevSeg]
    rw [force, if_neg (by simp [hfl.workBuf]), if_neg (by simp [hlen])]
    exact ⟨h, hfl⟩

/-- A complete write leaves the overlay in the file. -/
theorem force_wrote (h : Staged f) :
    (f.force (.wrote 0) true).1 = true ∧ (f.force (.wrote 0) true).2.content = f.overlay ∧
      (f.force (.wrote 0) true).2.diskIoError = f.diskIoError := by
  rcases h.cases with ⟨hb, hnone, hlen⟩ | ⟨hb, hlen⟩ | hfl
  · rw [force_workBuf hb]
    simp [writeWorkBuf, writeOut, SessionFile.overlay, hnone]
  · rw [force_prevSeg hb hlen]
    simp [writePrevSeg, writeOut, SessionFile.overlay, hb]
  · have hlen : f.prevSegPayloadLen = 0 := by simp [h.length, hfl.prevSeg]
    rw [force, if_neg (by simp [hfl.workBuf]), if_neg (by simp [hlen])]
    exact ⟨rfl, hfl.overlay.symm, rfl⟩

/-- A failed write of staged bytes is noted. -/
theorem force_fails (h : Staged f) (hp : ¬ Flushed f) (hans : answer.fails = true)
    (result : Bool) :
    (f.force answer result).1 = false ∧ (f.force answer result).2.diskIoError = true := by
  rcases h.cases with ⟨hb, -, -⟩ | ⟨hb, hlen⟩ | hfl
  · rw [force_workBuf hb]
    cases answer <;> simp [DiskAnswer.fails, writeWorkBuf, writeOut] at hans ⊢
  · rw [force_prevSeg hb hlen]
    cases answer <;> simp [DiskAnswer.fails, writePrevSeg, writeOut] at hans ⊢
  · exact absurd hfl hp

@[simp]
theorem force_useFile (f : SessionFile) (answer : DiskAnswer) (result : Bool) :
    (f.force answer result).2.useFile = f.useFile := by
  unfold force
  split_ifs
  · cases answer <;> rfl
  · cases answer <;> rfl
  · rfl

@[simp]
theorem force_isOpen (f : SessionFile) (answer : DiskAnswer) (result : Bool) :
    (f.force answer result).2.isOpen = f.isOpen := by
  unfold force
  split_ifs
  · cases answer <;> rfl
  · cases answer <;> rfl
  · rfl

/-! ## Staging a segment -/

theorem Staged.savePrevSeg (h : Staged f) (hfl : Flushed f) (hds : Carries ds) :
    Staged (f.savePrevSeg ds) where
  size := h.size
  available := h.available
  length := hds.length.symm
  kept := by
    have := hds.nonempty
    rw [← hds.length] at this
    simpa [SessionFile.savePrevSeg] using List.ne_nil_of_length_pos this
  exclusive hb := absurd hfl.workBuf hb

theorem Flushed.savePrevSeg_overlay (h : Flushed f) (ds : LTPDataSegment) :
    (f.savePrevSeg ds).overlay = writeAt f.content ds.offset ds.payload := by
  have hb : (f.savePrevSeg ds).workBuf = [] := h.workBuf
  simp [SessionFile.overlay, hb]
  rfl

theorem savePrevSeg_not_flushed (f : SessionFile) (ds : LTPDataSegment) :
    ¬ Flushed (f.savePrevSeg ds) := by
  intro h
  have := h.prevSeg
  simp [savePrevSeg] at this

/-- What was staged goes to the file first, and the new payload is kept. -/
theorem stage_of_flushes (h : Staged f) (hf : f.flushes ds) :
    f.stage answer ds =
      .ok ((f.force answer true).1, (f.force answer true).2.savePrevSeg ds) := by
  rcases h.cases with ⟨hb, hnone, hlen⟩ | ⟨hb, hlen⟩ | hfl
  · rw [flushes, if_pos hb] at hf
    rw [force_workBuf hb, stage, if_pos hb, stageOnWorkBuf, if_neg (by simp [hnone]), if_neg hf]
  · rw [flushes, if_neg (by simp [hb])] at hf
    rw [force_prevSeg hb hlen, stage, if_neg (by simp [hb]), if_pos hlen, stageOnPrevSeg]
    by_cases hoff : ds.offset = f.prevSegPayloadOffset + f.prevSegPayloadLen
    · have hroom := fun hr => hf.2 ⟨hoff, hr⟩
      rw [if_pos hoff]
      -- a buffer that is not allocated by now is not allocated for this pair either
      have hsame : f.allocWorkBuf (f.prevSegPayloadLen + ds.payloadLength) = f := by
        rw [allocWorkBuf, if_neg]
        rintro ⟨hnew, hlt⟩
        exact hroom (by simpa [hnew] using hlt)
      rw [hsame, if_neg]
      intro hlt
      cases hnew : f.workBufAllocated with
      | true => exact hroom (by simpa [hnew] using hlt)
      | false =>
        have := h.available
        rw [h.size, hnew] at this
        simp at this
        omega
    · rw [if_neg hoff]
  · have hlen : f.prevSegPayloadLen = 0 := by simp [h.length, hfl.prevSeg]
    rw [flushes, if_neg (by simp [hfl.workBuf])] at hf
    exact absurd hlen hf.1

/-- Without a write the segment joins what is staged. -/
structure Joins (f : SessionFile) (ds : LTPDataSegment) (g : SessionFile) : Prop where
  staged : Staged g
  pending : ¬ Flushed g
  overlay : g.overlay = writeAt f.overlay ds.offset ds.payload
  useFile : g.useFile = f.useFile
  isOpen : g.isOpen = f.isOpen
  diskIoError : g.diskIoError = f.diskIoError

/-- A copy that stays inside the work buffer. -/
theorem copyToWorkBuf_eq {data : List UInt8} {len : ℕ} (hlen : data.length = len)
    (hroom : f.workBuf.length + len ≤ f.workBufSize) :
    f.copyToWorkBuf data len = .ok { f with
      workBuf := f.workBuf ++ data, workBufAvailable := f.workBufAvailable - len } := by
  rw [copyToWorkBuf, if_neg (by omega), List.take_of_length_le (by omega)]

theorem stageOnWorkBuf_joins (h : Staged f) (hds : Carries ds) (hb : f.workBuf ≠ [])
    (hoff : ds.offset = f.workBufFileOffset + f.workBuf.length)
    (hroom : ds.payloadLength ≤ f.workBufAvailable) :
    ∃ g, f.stageOnWorkBuf answer ds = .ok (true, g) ∧ Joins f ds g := by
  have hnone := h.exclusive hb
  have havail := h.available
  have hpay := hds.length
  rw [stageOnWorkBuf, if_neg (by simp [hnone]), if_pos ⟨hoff, hroom⟩,
    copyToWorkBuf_eq hpay (by omega)]
  refine ⟨_, rfl, ⟨h.size, ?_, h.length, h.kept, fun _ => hnone⟩, ?_, ?_, rfl, rfl, rfl⟩
  · simp only [List.length_append]
    omega
  · rintro ⟨hflat, -⟩
    simp [hb] at hflat
  · simp [SessionFile.overlay, hnone, writeAt_append, hoff]

/-- Once both segments fit there is a work buffer, and it is empty. -/
theorem Staged.allocWorkBuf (h : Staged f) (hb : f.workBuf = []) {len : ℕ}
    (hroom : len < if f.workBufAllocated then f.workBufAvailable else workBufAllocSize) :
    len < workBufAllocSize ∧ f.allocWorkBuf len = { f with
      workBufAllocated := true, workBuf := []
      workBufSize := workBufAllocSize, workBufAvailable := workBufAllocSize } := by
  have hsize := h.size
  have havail := h.available
  cases hnew : f.workBufAllocated with
  | false =>
    simp only [hnew, Bool.false_eq_true, if_false] at hroom
    exact ⟨hroom, by rw [SessionFile.allocWorkBuf, if_pos ⟨hnew, hroom⟩]⟩
  | true =>
    simp only [hnew, if_true, hb, List.length_nil, Nat.add_zero] at hroom hsize havail
    rw [havail, hsize] at hroom
    refine ⟨hroom, ?_⟩
    rw [SessionFile.allocWorkBuf, if_neg (by simp [hnew])]
    cases f
    simp_all

/-- An empty work buffer with room takes the kept payload and the new one. -/
theorem combine_eq (hb : f.workBuf = []) {p : List UInt8} (hp : f.prevSegPayload = some p)
    (hlen : f.prevSegPayloadLen = p.length) (hpay : ds.payload.length = ds.payloadLength)
    (hroom : p.length + ds.payloadLength ≤ f.workBufSize) :
    f.combine ds = .ok { f with
      workBuf := p ++ ds.payload
      workBufAvailable := f.workBufAvailable - p.length - ds.payloadLength
      workBufFileOffset := f.prevSegPayloadOffset
      prevSegPayload := none, prevSegPayloadOffset := 0, prevSegPayloadLen := 0 } := by
  have hcopy := copyToWorkBuf_eq (f := f) (rfl : p.length = p.length) (by simp [hb]; omega)
  rw [combine, if_neg (by simp [hb]), hp, Option.getD_some, hlen, hcopy]
  simp only [bind, Except.bind, hb, List.nil_append]
  rw [copyToWorkBuf_eq hpay hroom]

theorem stageOnPrevSeg_joins (h : Staged f) (hds : Carries ds) (hb : f.workBuf = [])
    (hlen : f.prevSegPayloadLen ≠ 0)
    (hoff : ds.offset = f.prevSegPayloadOffset + f.prevSegPayloadLen)
    (hroom : f.prevSegPayloadLen + ds.payloadLength <
      if f.workBufAllocated then f.workBufAvailable else workBufAllocSize) :
    ∃ g, f.stageOnPrevSeg answer ds = .ok (true, g) ∧ Joins f ds g := by
  obtain ⟨hlt, halloc⟩ := h.allocWorkBuf hb hroom
  have hpay := hds.length
  have hpos := hds.nonempty
  have hlength := h.length
  cases hp : f.prevSegPayload with
  | none => simp [hp] at hlength; exact absurd hlength hlen
  | some p =>
    rw [hp, Option.getD_some] at hlength
    have hcombine := combine_eq (p := p)
      (f := f.allocWorkBuf (f.prevSegPayloadLen + ds.payloadLength)) (by rw [halloc])
      (by rw [halloc, hp]) (by rw [halloc, hlength]) hpay (by rw [halloc]; simp only; omega)
    rw [stageOnPrevSeg, if_pos hoff, if_pos (by rw [halloc]; exact hlt), hcombine, halloc]
    refine ⟨_, rfl, ⟨by simp, ?_, by simp, by simp, fun _ => rfl⟩, ?_, ?_, rfl, rfl, rfl⟩
    · simp only [List.length_append]
      omega
    · rintro ⟨hflat, -⟩
      simp only [List.append_eq_nil_iff] at hflat
      simp [hflat.2] at hpay
      omega
    · simp [SessionFile.overlay, hb, hp, writeAt_append, hoff, hlength]

/-- Otherwise the segment joins what is staged, and nothing is written. -/
theorem stage_of_not_flushes (h : Staged f) (hds : Carries ds) (hf : ¬ f.flushes ds) :
    ∃ g, f.stage answer ds = .ok (true, g) ∧ Joins f ds g := by
  rcases h.cases with ⟨hb, -, -⟩ | ⟨hb, hlen⟩ | hfl
  · rw [flushes, if_pos hb, not_not] at hf
    rw [stage, if_pos hb]
    exact stageOnWorkBuf_joins h hds hb hf.1 hf.2
  · rw [flushes, if_neg (by simp [hb])] at hf
    rw [stage, if_neg (by simp [hb]), if_pos hlen]
    have hjoin := not_not.mp fun hn => hf ⟨hlen, hn⟩
    exact stageOnPrevSeg_joins h hds hb hlen hjoin.1 hjoin.2
  · have hlen : f.prevSegPayloadLen = 0 := by simp [h.length, hfl.prevSeg]
    rw [stage, if_neg (by simp [hfl.workBuf]), if_neg (by simp [hlen]),
      if_neg (by simp [hfl.prevSeg])]
    refine ⟨_, rfl, h.savePrevSeg hfl hds, savePrevSeg_not_flushed f ds, ?_, rfl, rfl, rfl⟩
    rw [hfl.savePrevSeg_overlay, hfl.overlay]

/-! ## Storing a segment -/

theorem Staged.not_flushed_of_flushes (h : Staged f) (hf : f.flushes ds) : ¬ Flushed f := by
  intro hfl
  have hlen : f.prevSegPayloadLen = 0 := by simp [h.length, hfl.prevSeg]
  rw [flushes, if_neg (by simp [hfl.workBuf])] at hf
  exact hf.1 hlen

/-- A first write that is complete, or none, puts the segment on top of the overlay. -/
theorem stage_joins (h : Staged f) (hds : Carries ds) (hans : f.flushes ds → answer = .wrote 0) :
    ∃ g, f.stage answer ds = .ok (true, g) ∧ Joins f ds g := by
  by_cases hf : f.flushes ds
  · obtain ⟨hstaged, hfl⟩ := force_staged h (.wrote 0) true
    obtain ⟨hres, hcontent, herr⟩ := force_wrote h
    rw [stage_of_flushes h hf, hans hf, hres]
    refine ⟨_, rfl, hstaged.savePrevSeg hfl hds, savePrevSeg_not_flushed _ ds, ?_, ?_, ?_, herr⟩
    · rw [hfl.savePrevSeg_overlay, hcontent]
    · exact force_useFile f _ true
    · exact force_isOpen f _ true
  · exact stage_of_not_flushes h hds hf

/-- A first write that fails is noted, and the new payload is kept. -/
theorem stage_fails (h : Staged f) (hds : Carries ds) (hf : f.flushes ds)
    (hans : answer.fails = true) :
    ∃ g, f.stage answer ds = .ok (false, g) ∧ Staged g ∧ ¬ Flushed g ∧ g.diskIoError = true ∧
      g.useFile = f.useFile := by
  obtain ⟨hstaged, hfl⟩ := force_staged h answer true
  obtain ⟨hres, herr⟩ := force_fails h (h.not_flushed_of_flushes hf) hans true
  rw [stage_of_flushes h hf, hres]
  exact ⟨_, rfl, hstaged.savePrevSeg hfl hds, savePrevSeg_not_flushed _ ds, herr,
    force_useFile f _ true⟩

/-- The segment is on top of the overlay, and nothing is staged if a write was forced. -/
structure Stores (f : SessionFile) (ds : LTPDataSegment) (forced : Prop) (g : SessionFile) :
    Prop where
  staged : Staged g
  overlay : g.overlay = writeAt f.overlay ds.offset ds.payload
  flushed : forced → Flushed g
  useFile : g.useFile = f.useFile
  isOpen : g.isOpen = f.isOpen
  diskIoError : g.diskIoError = f.diskIoError

/-- The forced write after the segment has joined what is staged. -/
theorem Joins.force {forced : Prop} (h : Joins f ds g) :
    Stores f ds forced (g.force (.wrote 0) true).2 := by
  obtain ⟨hstaged, hfl⟩ := force_staged h.staged (.wrote 0) true
  obtain ⟨-, hcontent, herr⟩ := force_wrote h.staged
  refine ⟨hstaged, ?_, fun _ => hfl, ?_, ?_, herr.trans h.diskIoError⟩
  · rw [hfl.overlay, hcontent, h.overlay]
  · rw [force_useFile, h.useFile]
  · rw [force_isOpen, h.isOpen]

theorem Joins.stores {forced : Prop} (h : Joins f ds g) (hforced : ¬ forced) :
    Stores f ds forced g :=
  ⟨h.staged, h.overlay, fun hf => absurd hf hforced, h.useFile, h.isOpen, h.diskIoError⟩

/-- Unless bytes get lost without a word, the segment is stored or the error is noted. -/
theorem writeDsToFile_stores (h : Staged f) (hds : Carries ds) (lastSeg : Bool)
    {first second : DiskAnswer} (hkeep : ¬ f.Loses lastSeg first second ds) :
    ∃ r g, f.writeDsToFile lastSeg first second ds = .ok (r, g) ∧
      ((r = true ∧ Stores f ds (ds.isEndofblock = true ∨ lastSeg = true) g) ∨
        (r = false ∧ (first.fails = true ∨ second.fails = true) ∧ g.diskIoError = true ∧
          g.useFile = f.useFile)) := by
  simp only [Loses, not_or, not_and, Bool.not_eq_true] at hkeep
  obtain ⟨hfirst, hsecond, hmask⟩ := hkeep
  by_cases hfail : f.flushes ds ∧ first.fails = true
  · obtain ⟨g, hstage, hstaged, hpend, herr, huse⟩ := stage_fails h hds hfail.1 hfail.2
    rw [writeDsToFile, hstage]
    simp only [bind, Except.bind, Bool.and_false, Bool.or_false]
    by_cases heob : ds.isEndofblock = true
    · have hfails : second.fails = true := by simpa using hmask hfail.1 hfail.2 heob
      obtain ⟨hres, herr'⟩ := force_fails hstaged hpend hfails false
      rw [if_pos heob]
      exact ⟨(g.force second false).1, (g.force second false).2, rfl,
        Or.inr ⟨hres, Or.inl hfail.2, herr', by rw [force_useFile, huse]⟩⟩
    · rw [if_neg heob]
      exact ⟨false, g, rfl, Or.inr ⟨rfl, Or.inl hfail.2, herr, huse⟩⟩
  · have hwrote : f.flushes ds → first = .wrote 0 := fun hf =>
      DiskAnswer.eq_wrote (by simpa [hf] using hfail) (hfirst hf)
    obtain ⟨g, hstage, hjoin⟩ := stage_joins h hds hwrote
    rw [writeDsToFile, hstage]
    simp only [bind, Except.bind, Bool.and_true]
    by_cases hforce : ds.isEndofblock = true ∨ lastSeg = true
    · rw [if_pos (by simpa using hforce)]
      have hshort := hsecond (hforce.imp_right fun hl => ⟨hl, hfail⟩)
      cases hans : second.fails with
      | true =>
        obtain ⟨hres, herr⟩ := force_fails hjoin.staged hjoin.pending hans true
        exact ⟨(g.force second true).1, (g.force second true).2, rfl,
          Or.inr ⟨hres, Or.inr rfl, herr, by rw [force_useFile, hjoin.useFile]⟩⟩
      | false =>
        rw [DiskAnswer.eq_wrote hans hshort]
        exact ⟨(g.force (.wrote 0) true).1, (g.force (.wrote 0) true).2, rfl,
          Or.inl ⟨(force_wrote hjoin.staged).1, hjoin.force⟩⟩
    · rw [if_neg (by simpa using hforce)]
      exact ⟨true, g, rfl, Or.inl ⟨rfl, hjoin.stores hforce⟩⟩

/-- With complete writes every segment is stored. -/
theorem writeDsToFile_wrote (h : Staged f) (hds : Carries ds) (lastSeg : Bool) :
    ∃ g, f.writeDsToFile lastSeg (.wrote 0) (.wrote 0) ds = .ok (true, g) ∧
      Stores f ds (ds.isEndofblock = true ∨ lastSeg = true) g := by
  have hkeep : ¬ f.Loses lastSeg (.wrote 0) (.wrote 0) ds := by
    simp [Loses, DiskAnswer.short, DiskAnswer.fails]
  obtain ⟨r, g, hwrite, ⟨rfl, hstores⟩ | ⟨-, hfails, -⟩⟩ :=
    writeDsToFile_stores h hds lastSeg hkeep
  · exact ⟨g, hwrite, hstores⟩
  · simp [DiskAnswer.fails] at hfails

theorem Staged.fresh : Staged {} where
  size := rfl
  available := rfl
  length := rfl
  kept := by simp
  exclusive _ := rfl

end SessionFile

/-! ## Runs -/

/-- The counters that `AddSegment_incoming` updates before it stores the payload. -/
def LTPSession.countRed (s : LTPSession) (ds : LTPDataSegment) : LTPSession :=
  { s with
    expectedRedBytes :=
      if s.expectedRedBytes < u64 (ds.stopByte + 1) then u64 (ds.stopByte + 1)
      else s.expectedRedBytes
    redComplete := s.redComplete || ds.isEndofblock
    totalRedSegments := u64 (s.totalRedSegments + 1)
    redBytesReceived := u64 (s.redBytesReceived + ds.payloadLength) }

/-- Whether the segment that was counted last is the last one of the block. -/
def LTPSession.lastSeg (s : LTPSession) : Bool :=
  s.redComplete && s.redBytesReceived == s.expectedRedBytes

/-- A segment whose payload has gone to the file. -/
def LTPDataSegment.released (ds : LTPDataSegment) : LTPDataSegment := { ds with payload := [] }

/-- Count a segment, store it in the file with complete writes and enter it in the map. -/
def storeStep (x : LTPSession × SessionFile) (ds : LTPDataSegment) :
    Except StoreFault (LTPSession × SessionFile) := do
  let s := x.1.countRed ds
  let r ← x.2.writeDsToFile s.lastSeg (.wrote 0) (.wrote 0) ds
  .ok ({ s with redSegments := s.redSegments.insert ds.startByte ds.released }, r.2)

/-- The file after immediate writes of all payloads. -/
def writtenAtOnce (l : List LTPDataSegment) : ℕ → Option UInt8 :=
  l.foldl (fun g ds => writeAt g ds.offset ds.payload) fun _ => none

/-- The staging refines immediate writing. -/
structure Refines (x : LTPSession × SessionFile) (past : List LTPDataSegment) : Prop where
  overlay : x.2.overlay = writtenAtOnce past
  staged : x.2.Staged
  last : x.1.lastSeg = true → x.2.Flushed

theorem storeStep_refines {x : LTPSession × SessionFile} {past : List LTPDataSegment}
    {ds : LTPDataSegment} (h : Refines x past) (hds : Carries ds) :
    ∃ y, storeStep x ds = .ok y ∧ Refines y (past ++ [ds]) := by
  obtain ⟨g, hwrite, hstores⟩ :=
    SessionFile.writeDsToFile_wrote h.staged hds (x.1.countRed ds).lastSeg
  rw [storeStep, hwrite]
  refine ⟨_, rfl, ?_, hstores.staged, fun hlast => hstores.flushed (Or.inr hlast)⟩
  rw [writtenAtOnce, List.foldl_append]
  simp only [List.foldl_cons, List.foldl_nil]
  rw [hstores.overlay, h.overlay]
  rfl

/-- After every segment the overlay is the file of the immediate writes, no copy leaves its
buffer, one of the two buffers is empty, and a full block is in the file. -/
theorem writeDsToFile_run_refines (engineId sessionId : ℕ) (l : List LTPDataSegment)
    (hl : ∀ ds ∈ l, Carries ds) (n : ℕ) :
    ∃ s f, run storeStep (.new engineId sessionId, {}) (l.take n) = .ok (s, f) ∧
      f.overlay = writtenAtOnce (l.take n) ∧ (f.workBuf = [] ∨ f.prevSegPayload = none) ∧
      (s.redComplete = true → s.redBytesReceived = s.expectedRedBytes → f.Flushed) := by
  have hmeets : Meets storeStep (fun _ ds => Carries ds) (.new engineId sessionId, {})
      (l.take n) := Meets.of_forall _ fun ds hds => hl ds (List.mem_of_mem_take hds)
  obtain ⟨⟨s, f⟩, hrun, href⟩ := run_invariant Refines
    (fun x past ds h hds => storeStep_refines h hds)
    ⟨by simp [SessionFile.overlay, writtenAtOnce], SessionFile.Staged.fresh, fun _ => ⟨rfl, rfl⟩⟩
    hmeets
  refine ⟨s, f, hrun, href.overlay, ?_, fun hc he => href.last ?_⟩
  · by_cases hb : f.workBuf = []
    · exact Or.inl hb
    · exact Or.inr (href.staged.exclusive hb)
  · simp [LTPSession.lastSeg, hc, he]

/-- A red segment with a payload. -/
def redPiece (offset : ℕ) (payload : List UInt8) (eob : Bool) : LTPDataSegment :=
  { engineId := 1, sessionId := 1, segmentType := .ds, redGreen := .red, clientServiceId := 1,
    isCheckpoint := eob, isRedEndofblock := eob, offset := offset, startByte := offset,
    stopByte := offset + payload.length - 1, payloadLength := payload.length, payload := payload }

theorem redPiece_carries (offset : ℕ) {payload : List UInt8} (h : payload ≠ []) (eob : Bool) :
    Carries (redPiece offset payload eob) :=
  ⟨rfl, List.length_pos_iff.mpr h⟩

/-- Two contiguous segments, the end of the block, and the segment that fills the gap. -/
theorem writeDsToFile_run_refines_gap :
    ∃ s f, run storeStep (.new 1 1, {}) ([redPiece 0 [1, 2] false, redPiece 2 [3] false,
        redPiece 5 [6] true, redPiece 3 [4, 5] false].take 4) = .ok (s, f) ∧
      f.overlay = writtenAtOnce ([redPiece 0 [1, 2] false, redPiece 2 [3] false,
        redPiece 5 [6] true, redPiece 3 [4, 5] false].take 4) ∧
      (f.workBuf = [] ∨ f.prevSegPayload = none) ∧
      (s.redComplete = true → s.redBytesReceived = s.expectedRedBytes → f.Flushed) :=
  writeDsToFile_run_refines 1 1 [redPiece 0 [1, 2] false, redPiece 2 [3] false,
    redPiece 5 [6] true, redPiece 3 [4, 5] false]
    (by simp [redPiece_carries]) 4

end Dtnme.Ltp
