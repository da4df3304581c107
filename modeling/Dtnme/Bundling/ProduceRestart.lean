import Dtnme.Library.Transition
import Dtnme.Bundling.Produce

/-! # Producing a payload block again

A transmission that was given up is begun again with the same blocks, and the payload block then
still has the work buffer of the first one. Calls continue where the last one stopped or start
over at offset 0.
-/

namespace Dtnme.Bundling
open Library

/-- One call of `BP7_PayloadBlockProcessor::produce`. -/
structure ProduceCall where
  offset : ℕ
  len : ℕ
  deriving DecidableEq, Repr

structure Produced where
  call : ProduceCall
  bytes : List UInt8
  deriving DecidableEq, Repr

/-- The payload block between two calls, and what the calls wrote. -/
structure Production where
  block : BlockInfo
  offset : ℕ := 0
  produced : List Produced := []

namespace Production

def step (payload : List UInt8) (s : Production) (c : ProduceCall) : Except Fault Production := do
  let (bytes, block) ← producePayload payload s.block c.offset c.len
  .ok { block := block, offset := c.offset + c.len, produced := s.produced ++ [⟨c, bytes⟩] }

/-- A call continues or starts over, and stays within the block. -/
def Legal (s : Production) (c : ProduceCall) : Prop :=
  (c.offset = s.offset ∨ c.offset = 0) ∧ c.offset + c.len ≤ s.block.fullLength

/-- What is in the work buffer when a call starts at the block's first byte is what the payload
begins with; an empty work buffer is. -/
def Restartable (payload : List UInt8) (s : Production) (c : ProduceCall) : Prop :=
  c.offset = 0 → ∀ workBuf, s.block.locals = some workBuf → Ahead payload 0 workBuf

/-- A call wrote the asked range of the header followed by the payload. -/
def Exact (payload : List UInt8) (block : BlockInfo) (p : Produced) : Prop :=
  p.bytes = slice (block.contents ++ payload) p.call.offset p.call.len

instance (s : Production) (c : ProduceCall) : Decidable (Legal s c) := by
  unfold Legal
  infer_instance

/-! ## Work buffers -/

/-- The work buffer is a queue, of whatever bytes. -/
def Sound (block : BlockInfo) : Prop :=
  ∀ workBuf, block.locals = some workBuf → ∃ data, workBuf.Holds data

theorem keepHelper_sound {payload : List UInt8} {po : ℕ} {workBuf workBuf' : StreamBuffer}
    {data : List UInt8} (h : workBuf.Holds data) (hk : keepHelper payload po workBuf = some workBuf') :
    ∃ data, workBuf'.Holds data := by
  unfold keepHelper at hk
  split_ifs at hk
  cases hk
  exact ⟨data, h⟩

/-- Whatever the work buffer holds, it is emptied before it is filled again. -/
theorem produceBuffered_returns {payload : List UInt8} {workBuf : StreamBuffer} {data : List UInt8}
    (h : workBuf.Holds data) {po len : ℕ} (hle : po + len ≤ payload.length) :
    ∃ bytes locals, produceBuffered payload workBuf po len = .ok (bytes, locals) ∧
      ∀ workBuf', locals = some workBuf' → ∃ data, workBuf'.Holds data := by
  have hfull := h.fullbytes_eq
  have hmin : min len (payload.length - po) = len := by omega
  unfold produceBuffered
  simp only [hmin]
  split_ifs with hin
  · obtain ⟨rested, hconsume, hrested⟩ := h.consume (n := len) (by omega)
    refine ⟨data.take len, keepHelper payload (po + len) rested, ?_, fun _ => keepHelper_sound hrested⟩
    simp only [bind, Except.bind, h.copyOut (n := len) (by omega), hconsume]
  · obtain ⟨emptied, hdrain, hempty⟩ := drain_holds h
    obtain ⟨workBuf', hrefill, _, -, ha⟩ := refill_reads payload (len - data.length)
      (po + data.length) (len - data.length) hempty (by omega) le_rfl
    refine ⟨data ++ slice payload (po + data.length) (len - data.length),
      keepHelper payload (po + data.length + (len - data.length)) workBuf', ?_,
      fun _ => keepHelper_sound ha⟩
    simp only [bind, Except.bind, hdrain, hempty.tailbytes_eq, if_true, hrefill]

theorem openHelper_sound (payload : List UInt8) {block : BlockInfo} (h : Sound block)
    (offset len : ℕ) : Sound (openHelper payload block offset len) := by
  unfold openHelper
  split_ifs
  · intro workBuf hw
    cases hw
    exact ⟨[], StreamBuffer.new_holds _⟩
  · exact h

theorem produceData_returns {payload : List UInt8} {block : BlockInfo} (h : Sound block) (po len : ℕ)
    (hle : po + len ≤ payload.length) :
    ∃ bytes locals, produceData payload block.locals po len = .ok (bytes, locals) ∧
      Sound (block.setLocals locals) := by
  cases hl : block.locals with
  | some workBuf =>
    obtain ⟨data, hdata⟩ := h workBuf hl
    exact produceBuffered_returns hdata hle
  | none =>
    have hmin : min len (payload.length - po) = len := by omega
    refine ⟨slice payload po len, none, ?_, fun workBuf hw => by cases hw⟩
    simp only [produceData, hmin, readData_ok hle, bind, Except.bind]

/-- A call within the block returns, with every work buffer. -/
theorem producePayload_returns {payload : List UInt8} {block : BlockInfo} {offset len : ℕ}
    (hb : PayloadBlock payload block) (hs : Sound block) (hle : offset + len ≤ block.fullLength) :
    ∃ bytes l, producePayload payload block offset len = .ok (bytes, block.setLocals l) ∧
      Sound (block.setLocals l) := by
  obtain ⟨l₀, hopen⟩ := openHelper_eq payload block offset len
  have hsound := openHelper_sound payload hs offset len
  have hdata := hb.dataOffset_eq
  rw [hb.fullLength_eq] at hle
  rw [hopen] at hsound
  have hpre := producePreamble_eq
    (show (block.setLocals l₀).dataOffset ≤ (block.setLocals l₀).contents.length from hdata.le)
    offset len
  have hlen : (slice block.contents offset (min len (block.dataOffset - offset))).length =
      min len (block.dataOffset - offset) := by
    rw [length_slice]
    omega
  unfold producePayload
  rw [hopen]
  simp only [hpre, bind, Except.bind, BlockInfo.setLocals_contents, BlockInfo.setLocals_dataOffset,
    hlen]
  split_ifs with hdone
  · exact ⟨_, l₀, rfl, hsound⟩
  · obtain ⟨bytes, l, hread, hl⟩ := produceData_returns hsound
      (offset + min len (block.dataOffset - offset) - block.dataOffset)
      (len - min len (block.dataOffset - offset))
      (show _ ≤ payload.length by omega)
    refine ⟨slice block.contents offset (min len (block.dataOffset - offset)) ++ bytes, l, ?_, hl⟩
    rw [hread]
    rfl

/-! ## Runs -/

theorem step_eq {payload : List UInt8} {s : Production} {c : ProduceCall} {bytes : List UInt8}
    {block : BlockInfo} (h : producePayload payload s.block c.offset c.len = .ok (bytes, block)) :
    step payload s c = .ok { block := block, offset := c.offset + c.len,
                             produced := s.produced ++ [⟨c, bytes⟩] } := by
  unfold step
  rw [h]
  rfl

/-- Every call has returned. -/
structure Answered (payload : List UInt8) (block : BlockInfo) (s : Production)
    (past : List ProduceCall) : Prop where
  block_eq : ∃ l, s.block = block.setLocals l
  sound : Sound s.block
  calls_eq : s.produced.map Produced.call = past

theorem Answered.step {payload : List UInt8} {block : BlockInfo} {s : Production}
    {past : List ProduceCall} {c : ProduceCall} (hb : PayloadBlock payload block)
    (h : Answered payload block s past) (hc : Legal s c) :
    ∃ s', Production.step payload s c = .ok s' ∧ Answered payload block s' (past ++ [c]) := by
  obtain ⟨l, hblock⟩ := h.block_eq
  have hpay : PayloadBlock payload s.block := hblock ▸ hb.setLocals l
  obtain ⟨bytes, l', hprod, hsound⟩ := producePayload_returns hpay h.sound hc.2
  refine ⟨_, step_eq hprod, ⟨l', ?_⟩, hsound, ?_⟩
  · rw [hblock, BlockInfo.setLocals_setLocals]
  · simp [h.calls_eq]

/-- Every call wrote what it was asked for, and the work buffer fits the next one. -/
structure InStep (payload : List UInt8) (block : BlockInfo) (s : Production) : Prop where
  block_eq : ∃ l, s.block = block.setLocals l
  ready : Ready payload s.block s.offset
  exact : ∀ p ∈ s.produced, Exact payload block p

theorem InStep.step {payload : List UInt8} {block : BlockInfo} {s : Production} {c : ProduceCall}
    (hb : PayloadBlock payload block) (h : InStep payload block s) (hc : Legal s c)
    (hrestart : Restartable payload s c) :
    ∃ s', Production.step payload s c = .ok s' ∧ InStep payload block s' := by
  obtain ⟨l, hblock⟩ := h.block_eq
  have hpay : PayloadBlock payload s.block := hblock ▸ hb.setLocals l
  have hready : Ready payload s.block c.offset := by
    rcases hc.1 with hnext | hzero
    · rw [hnext]
      exact h.ready
    · intro workBuf hw
      rw [hzero, Nat.zero_sub]
      exact hrestart hzero workBuf hw
  obtain ⟨l', hprod, hnext⟩ := producePayload_spec hpay hready hc.2
  refine ⟨_, step_eq hprod, ⟨l', ?_⟩, hnext, fun p hp => ?_⟩
  · rw [hblock, BlockInfo.setLocals_setLocals]
  · rcases List.mem_append.mp hp with hp | hp
    · exact h.exact p hp
    · rw [List.mem_singleton.mp hp, Exact, hpay.wire_eq, hblock]
      rfl

/-- All calls on a payload block return. What they write is exact if no call that starts over
finds other bytes in the work buffer than the payload begins with. -/
theorem produced_exact (payload : List UInt8) (block : BlockInfo) (calls : List ProduceCall)
    (hb : PayloadBlock payload block) (hfresh : block.locals = none)
    (hcalls : Meets (step payload) Legal { block := block } calls) :
    ∃ s, run (step payload) { block := block } calls = .ok s ∧ s.produced.map Produced.call = calls ∧
      (Meets (step payload) (Restartable payload) { block := block } calls →
        ∀ p ∈ s.produced, Exact payload block p) := by
  have hsame : ∃ l, block = block.setLocals l := ⟨block.locals, rfl⟩
  have hnone : ∀ workBuf, block.locals ≠ some workBuf := by simp [hfresh]
  obtain ⟨s, hs, hanswered⟩ := run_invariant (Answered payload block)
    (fun s past c h hc => h.step hb hc)
    ⟨hsame, fun workBuf hw => absurd hw (hnone workBuf), rfl⟩ hcalls
  refine ⟨s, hs, hanswered.calls_eq, fun hrestarts => ?_⟩
  obtain ⟨t, ht, hexact⟩ := run_invariant (fun s _ => InStep payload block s)
    (fun s past c h hc => h.step hb hc.1 hc.2)
    ⟨hsame, fun workBuf hw => absurd hw (hnone workBuf), by simp⟩ (hcalls.and hrestarts)
  rw [hs] at ht
  cases ht
  exact hexact.exact

/-- The preamble of a block with a payload of twenty bytes. -/
def twentyBlock : BlockInfo :=
  { type := .payload, contents := [0x85, 1, 1, 0, 0, 0x54], dataOffset := 6, dataLength := 20 }

def twentyBytes : List UInt8 := [0, 1, 2, 3, 4, 5, 6, 7, 8, 9, 10, 11, 12, 13, 14, 15, 16, 17, 18, 19]

theorem twentyBlock_payload : PayloadBlock twentyBytes twentyBlock := ⟨rfl, rfl, rfl, rfl⟩

/-- A transmission that was given up at its end is begun again. -/
theorem run_exact_again :
    ∃ s, run (step twentyBytes) { block := twentyBlock } [⟨0, 10⟩, ⟨10, 16⟩, ⟨0, 26⟩] = .ok s ∧
      s.produced.map Produced.call = [⟨0, 10⟩, ⟨10, 16⟩, ⟨0, 26⟩] ∧
      (Meets (step twentyBytes) (Restartable twentyBytes) { block := twentyBlock }
          [⟨0, 10⟩, ⟨10, 16⟩, ⟨0, 26⟩] →
        ∀ p ∈ s.produced, Exact twentyBytes twentyBlock p) :=
  produced_exact twentyBytes twentyBlock [⟨0, 10⟩, ⟨10, 16⟩, ⟨0, 26⟩] twentyBlock_payload rfl
    (by decide +kernel)

/-- What the calls of a run wrote. -/
def outputs (payload : List UInt8) (block : BlockInfo) (calls : List ProduceCall) :
    Option (List Produced) :=
  (run (step payload) { block := block } calls).toOption.map produced

/-- Given up after ten bytes and begun again, the second transmission has the bytes read ahead for
the first one where the payload should begin. -/
theorem run_stale : Meets (step twentyBytes) Legal { block := twentyBlock } [⟨0, 10⟩, ⟨0, 10⟩] ∧
    ¬ ∃ s, run (step twentyBytes) { block := twentyBlock } [⟨0, 10⟩, ⟨0, 10⟩] = .ok s ∧
      ∀ p ∈ s.produced, Exact twentyBytes twentyBlock p := by
  have hout : outputs twentyBytes twentyBlock [⟨0, 10⟩, ⟨0, 10⟩] =
      some [⟨⟨0, 10⟩, [0x85, 1, 1, 0, 0, 0x54, 0, 1, 2, 3]⟩,
        ⟨⟨0, 10⟩, [0x85, 1, 1, 0, 0, 0x54, 4, 5, 6, 7]⟩] := by
    decide +kernel
  refine ⟨by decide +kernel, ?_⟩
  rintro ⟨s, hs, hexact⟩
  simp only [outputs, hs, Except.toOption, Option.map_some, Option.some.injEq] at hout
  have hwrong := hexact ⟨⟨0, 10⟩, [0x85, 1, 1, 0, 0, 0x54, 4, 5, 6, 7]⟩ (by simp [hout])
  revert hwrong
  unfold Exact
  decide +kernel

end Production

end Dtnme.Bundling
