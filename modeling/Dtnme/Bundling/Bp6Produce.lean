import Dtnme.Bundling.Bp6Block
import Dtnme.Bundling.Produce

/-! # Producing the bytes of a version 6 bundle

`BundleProtocolVersion6::produce` goes through the blocks like its sister of version 7. There is no
frame around them: the end is where a block is flagged as the last one, and a chunk can end exactly
there. The payload block may stand anywhere, and it is read through the same kind of work buffer.
-/

namespace Dtnme.Bundling.Bp6
open Library

/-- `last_block` of an outgoing block of version 6, whose flags are read from its contents. -/
def lastBlock (block : BlockInfo) : Except Fault Bool :=
  if block.contents.length < 2 then .ok false
  else if block.type = .primary then .ok false
  else
    match readSdnv (block.contents.drop 1) with
    | some (flags, _) => .ok (flags.testBit 3)
    | none => .error .assertFailed

/-- `BundleProtocolVersion6::total_length`. -/
def totalLength (blocks : List BlockInfo) : ℕ := (blocks.map BlockInfo.fullLength).sum

/-- The loop from the block that holds `offset` on: the bytes, the room that is left, whether the end
is reached, and the blocks. -/
def copyBlocks (payload : List UInt8) :
    List BlockInfo → ℕ → ℕ → Except Fault (List UInt8 × ℕ × Bool × List BlockInfo)
  | [], _, _ => .error .assertFailed
  | block :: blocks, offset, len => do
    let remainder := block.fullLength - offset
    let tocopy := min len remainder
    let (bytes, block) ← produceBlock payload block offset tocopy
    if len - tocopy = 0 then
      -- the chunk can end where the last block does
      if tocopy = remainder then
        let last ← lastBlock block
        if last then
          if blocks = [] then .ok (bytes, 0, true, block :: blocks) else .error .assertFailed
        else .ok (bytes, 0, false, block :: blocks)
      else .ok (bytes, 0, false, block :: blocks)
    else if tocopy ≠ remainder then .error .assertFailed
    else
      let last ← lastBlock block
      if last then
        if blocks = [] then .ok (bytes, len - tocopy, true, block :: blocks)
        else .error .assertFailed
      else
        let (rest, left, last, blocks) ← copyBlocks payload blocks 0 (len - tocopy)
        .ok (bytes ++ rest, left, last, block :: blocks)

/-- The blocks skipped by the offset, then the loop. -/
def produceFrom (payload : List UInt8) (origlen : ℕ) :
    List BlockInfo → ℕ → Except Fault Chunk
  | [], _ => .error .assertFailed
  | block :: blocks, offset =>
    if block.fullLength ≤ offset then do
      let chunk ← produceFrom payload origlen blocks (offset - block.fullLength)
      .ok { chunk with blocks := block :: chunk.blocks }
    else do
      let (bytes, left, last, blocks) ← copyBlocks payload (block :: blocks) offset origlen
      .ok { bytes := bytes, produced := origlen - left, last := last, blocks := blocks }

/-- `BundleProtocolVersion6::produce`. -/
def produce (payload : List UInt8) (blocks : List BlockInfo) (offset len : ℕ) :
    Except Fault Chunk :=
  if len = 0 then .ok { bytes := [], produced := 0, last := false, blocks := blocks }
  else produceFrom payload len blocks offset

def transmit (payload : List UInt8) (sizes : ℕ → ℕ) :
    ℕ → ℕ → ℕ → List BlockInfo → Except Fault (List Chunk) :=
  transmitWith (produce payload) sizes

/-! ## Generated blocks -/

/-- A block as `generate` leaves it. -/
def Good (payload : List UInt8) (block : BlockInfo) : Prop :=
  EncodedBlock block ∨ PayloadBlock payload block

/-- Blocks of which the final one is flagged last and no other. -/
structure Sendable (payload : List UInt8) (blocks : List BlockInfo) : Prop where
  good : ∀ b ∈ blocks, Good payload b
  flagged : ∃ front final, blocks = front ++ [final] ∧ (∀ b ∈ front, lastBlock b = .ok false) ∧
    lastBlock final = .ok true

/-- The block without its work buffer. -/
def bare (block : BlockInfo) : BlockInfo := block.setLocals none

@[simp] theorem bare_setLocals (block : BlockInfo) (l : Option StreamBuffer) :
    bare (block.setLocals l) = bare block := rfl

theorem eq_setLocals_bare (block : BlockInfo) : block = (bare block).setLocals block.locals := rfl

@[simp] theorem lastBlock_setLocals (block : BlockInfo) (l : Option StreamBuffer) :
    lastBlock (block.setLocals l) = lastBlock block := rfl

theorem Good.setLocals {payload : List UInt8} {block : BlockInfo} (h : Good payload block)
    (l : Option StreamBuffer) : Good payload (block.setLocals l) := by
  rcases h with h | h
  · exact Or.inl ⟨h.type_ne, h.fullLength_pos, h.fullLength_le⟩
  · exact Or.inr (h.setLocals l)

theorem Good.length_wire {payload : List UInt8} {block : BlockInfo} (h : Good payload block) :
    (wire payload block).length = block.fullLength := by
  rcases h with h | h
  · exact h.length_wire payload
  · exact h.length_wire

theorem body_bare (payload : List UInt8) {blocks blocks' : List BlockInfo}
    (h : blocks'.map bare = blocks.map bare) : body payload blocks' = body payload blocks := by
  have hbare : ∀ l : List BlockInfo, body payload l = body payload (l.map bare) := by
    intro l
    induction l with
    | nil => rfl
    | cons b l ih => rw [List.map_cons, body_cons, body_cons, ih]; rfl
  rw [hbare, h, ← hbare]

theorem length_body {payload : List UInt8} {blocks : List BlockInfo}
    (h : ∀ b ∈ blocks, Good payload b) : (body payload blocks).length = totalLength blocks := by
  induction blocks with
  | nil => rfl
  | cons b blocks ih =>
    rw [length_body_cons, (h b List.mem_cons_self).length_wire,
      ih fun c hc => h c (List.mem_cons_of_mem b hc)]
    rfl

/-- Another work buffer makes no difference. -/
theorem Sendable.of_bare {payload : List UInt8} {blocks blocks' : List BlockInfo}
    (h : Sendable payload blocks) (heq : blocks'.map bare = blocks.map bare) :
    Sendable payload blocks' := by
  have hmem : ∀ (l l' : List BlockInfo), l'.map bare = l.map bare → ∀ b ∈ l', ∃ c ∈ l, ∃ k,
      b = c.setLocals k := by
    intro l l' hl b hb
    have hin : bare b ∈ l.map bare := by
      rw [← hl]
      exact List.mem_map_of_mem hb
    obtain ⟨c, hc, hcb⟩ := List.mem_map.mp hin
    refine ⟨c, hc, b.locals, ?_⟩
    calc b = (bare b).setLocals b.locals := eq_setLocals_bare b
      _ = (bare c).setLocals b.locals := by rw [hcb]
      _ = c.setLocals b.locals := rfl
  constructor
  · intro b hb
    obtain ⟨c, hc, k, rfl⟩ := hmem blocks blocks' heq b hb
    exact (h.good c hc).setLocals k
  · obtain ⟨front, final, rfl, hfront, hfinal⟩ := h.flagged
    rw [List.map_append] at heq
    obtain ⟨front', finals', rfl, hf, hl⟩ := List.map_eq_append_iff.mp heq
    obtain ⟨final', rfl⟩ : ∃ final', finals' = [final'] := by
      have hlen := congrArg List.length hl
      exact List.length_eq_one_iff.mp (by simpa using hlen)
    refine ⟨front', final', rfl, fun b hb => ?_, ?_⟩
    · obtain ⟨c, hc, k, rfl⟩ := hmem front front' hf b hb
      exact hfront c hc
    · obtain ⟨c, hc, k, rfl⟩ := hmem [final] [final'] hl final' (by simp)
      rw [List.mem_singleton.mp hc]
      exact hfinal

/-- `BP6_PayloadBlockProcessor::generate`: the payload stays in the store. -/
def generatePayload (payload : List UInt8) (last : Bool) : BlockInfo :=
  let preamble := 1 :: (sdnv (if last then 8 else 0) ++ sdnv payload.length)
  { type := .payload, contents := preamble, dataOffset := preamble.length,
    dataLength := payload.length }

/-- The work buffers fit a request at `offset`: a block that is not skipped yet has read from where
the request goes on. -/
def ReadyAt (payload : List UInt8) : List BlockInfo → ℕ → Prop
  | [], _ => True
  | b :: blocks, offset =>
    (b.type = .payload → offset ≤ b.fullLength → Ready payload b offset) ∧
      ReadyAt payload blocks (offset - b.fullLength)

theorem readyAt_of_fresh {payload : List UInt8} {blocks : List BlockInfo}
    (h : ∀ b ∈ blocks, b.locals = none) (offset : ℕ) : ReadyAt payload blocks offset := by
  induction blocks generalizing offset with
  | nil => trivial
  | cons b blocks ih =>
    refine ⟨fun _ _ workBuf hw => ?_, ih (fun c hc => h c (List.mem_cons_of_mem b hc)) _⟩
    rw [h b List.mem_cons_self] at hw
    cases hw

/-! ## One block -/

/-- A block produces what is asked of it, and its work buffer goes on with it. -/
theorem produceBlock_spec {payload : List UInt8} {block : BlockInfo} {offset len : ℕ}
    (hb : Good payload block) (hr : block.type = .payload → Ready payload block offset)
    (hoff : offset < block.fullLength ∨ block.type = .payload)
    (hle : offset + len ≤ block.fullLength) :
    ∃ l, produceBlock payload block offset len =
        .ok (slice (wire payload block) offset len, block.setLocals l) ∧
      (block.type = .payload → Ready payload (block.setLocals l) (offset + len)) := by
  rcases hb with hb | hb
  · have hlt := hoff.resolve_right hb.type_ne
    exact ⟨block.locals, hb.produceBlock_eq payload hlt hle, fun h => absurd h hb.type_ne⟩
  · obtain ⟨l, hprod, hready⟩ := producePayload_spec hb (hr hb.type_eq) hle
    refine ⟨l, ?_, fun _ => hready⟩
    rw [produceBlock, if_pos hb.type_eq, hprod]

/-- A block that is flagged last is not empty. -/
theorem fullLength_pos_of_lastBlock {payload : List UInt8} {block : BlockInfo}
    (hb : Good payload block) (h : lastBlock block = .ok true) : 0 < block.fullLength := by
  rcases hb with hb | hb
  · exact hb.fullLength_pos
  · have hlong : ¬ block.contents.length < 2 := by
      intro hshort
      simp [lastBlock, hshort] at h
    rw [hb.fullLength_eq]
    omega

/-! ## The blocks -/

/-- What the loop makes of a request: the asked bytes as far as there are any, and whether they come
to the end. -/
theorem copyBlocks_spec {payload : List UInt8} {front : List BlockInfo} {final : BlockInfo}
    {offset : ℕ} (len : ℕ) (hgood : ∀ b ∈ front ++ [final], Good payload b)
    (hfront : ∀ b ∈ front, lastBlock b = .ok false) (hfinal : lastBlock final = .ok true)
    (hoff : ∀ b ∈ (front ++ [final]).head?, offset < b.fullLength ∨ offset = 0)
    (hr : ReadyAt payload (front ++ [final]) offset) :
    ∃ blocks', copyBlocks payload (front ++ [final]) offset len =
        .ok (slice (body payload (front ++ [final])) offset len,
          len - ((body payload (front ++ [final])).length - offset),
          decide ((body payload (front ++ [final])).length ≤ offset + len), blocks') ∧
      blocks'.map bare = (front ++ [final]).map bare ∧
      ReadyAt payload blocks' (offset + min len ((body payload (front ++ [final])).length - offset)) := by
  induction front generalizing offset len with
  | nil =>
    have hb := hgood final (by simp)
    have hpos := fullLength_pos_of_lastBlock hb hfinal
    have hwire := hb.length_wire
    have hlt : offset < final.fullLength := by
      rcases hoff final rfl with h | h <;> omega
    set tocopy := min len (final.fullLength - offset) with htocopy
    obtain ⟨l, hprod, hready⟩ := produceBlock_spec hb (fun ht => hr.1 ht hlt.le) (Or.inl hlt)
      (show offset + tocopy ≤ final.fullLength by omega)
    have hcut : slice (wire payload final) offset tocopy = slice (wire payload final) offset len := by
      rw [htocopy, ← hwire, slice_min]
    rw [hcut] at hprod
    refine ⟨[final.setLocals l], ?_, by simp, ?_⟩
    · simp only [List.nil_append, copyBlocks, ← htocopy, hprod, bind, Except.bind, lastBlock_setLocals,
        hfinal, body_cons, body_nil, List.append_nil, hwire, if_true]
      split_ifs with hdone hexact hshort
      · simp only [Except.ok.injEq, Prod.mk.injEq, true_and, and_true]
        exact ⟨by omega, by rw [eq_comm, decide_eq_true_eq]; omega⟩
      · simp only [Except.ok.injEq, Prod.mk.injEq, true_and, and_true]
        exact ⟨by omega, by rw [eq_comm, decide_eq_false_iff_not]; omega⟩
      · omega
      · simp only [Except.ok.injEq, Prod.mk.injEq, true_and, and_true]
        exact ⟨by omega, by rw [eq_comm, decide_eq_true_eq]; omega⟩
    · simp only [List.nil_append, body_cons, body_nil, List.append_nil, hwire, ← htocopy]
      exact ⟨fun ht _ => hready ht, trivial⟩
  | cons b front ih =>
    have hb := hgood b (by simp)
    have hlast := hfront b List.mem_cons_self
    have hwire := hb.length_wire
    have hpos : 0 < (body payload (front ++ [final])).length := by
      have hfinalpos := fullLength_pos_of_lastBlock (hgood final (by simp)) hfinal
      have hfinalwire := (hgood final (by simp)).length_wire
      simp [body_append]
      omega
    have hcase : offset ≤ b.fullLength ∧ (offset < b.fullLength ∨ b.type = .payload) := by
      rcases hoff b rfl with h | h
      · exact ⟨h.le, Or.inl h⟩
      · rcases hb with he | hp
        · exact ⟨by omega, Or.inl (by have := he.fullLength_pos; omega)⟩
        · exact ⟨by omega, Or.inr hp.type_eq⟩
    set tocopy := min len (b.fullLength - offset) with htocopy
    obtain ⟨l, hprod, hready⟩ := produceBlock_spec hb (fun ht => hr.1 ht hcase.1) hcase.2
      (show offset + tocopy ≤ b.fullLength by omega)
    have hrest : ReadyAt payload (front ++ [final]) (offset - b.fullLength) := hr.2
    rw [show offset - b.fullLength = 0 by omega] at hrest
    simp only [List.cons_append, copyBlocks, ← htocopy, hprod, bind, Except.bind, lastBlock_setLocals,
      hlast, body_cons, List.length_append, hwire, Bool.false_eq_true, if_false]
    by_cases hdone : len - tocopy = 0
    · have hlen : tocopy = len := by omega
      refine ⟨b.setLocals l :: (front ++ [final]), ?_, by simp, ?_⟩
      · rw [if_pos hdone, ite_self, slice_append_left (by omega), hlen]
        simp only [Except.ok.injEq, Prod.mk.injEq, true_and, and_true]
        exact ⟨by omega, by rw [eq_comm, decide_eq_false_iff_not]; omega⟩
      · refine ⟨fun ht hle => ?_, ?_⟩
        · rw [show offset + min len (b.fullLength + (body payload (front ++ [final])).length - offset) =
            offset + tocopy by omega]
          exact hready ht
        · rw [show offset + min len (b.fullLength + (body payload (front ++ [final])).length - offset) -
            (b.setLocals l).fullLength = 0 by rw [BlockInfo.setLocals_fullLength]; omega]
          exact hrest
    · have hfull : tocopy = b.fullLength - offset := by omega
      obtain ⟨blocks', hcopy, hbare, hat⟩ := ih (len - tocopy)
        (fun c hc => hgood c (List.mem_cons_of_mem b hc))
        (fun c hc => hfront c (List.mem_cons_of_mem b hc)) (fun _ _ => Or.inr rfl) hrest
      refine ⟨b.setLocals l :: blocks', ?_, by simp [hbare], ?_⟩
      · rw [if_neg hdone, if_neg (by omega), hcopy]
        simp only [Except.ok.injEq, Prod.mk.injEq, and_true]
        refine ⟨?_, by omega, by rw [decide_eq_decide]; omega⟩
        rw [slice_append_over (by omega) (by omega), hwire, slice_eq_take, hfull,
          show offset + len - b.fullLength = len - (b.fullLength - offset) by omega]
      · refine ⟨fun ht hle => ?_, ?_⟩
        · rw [BlockInfo.setLocals_fullLength] at hle
          omega
        · rw [BlockInfo.setLocals_fullLength,
            show offset + min len (b.fullLength + (body payload (front ++ [final])).length - offset) -
              b.fullLength = 0 + min (len - tocopy) ((body payload (front ++ [final])).length - 0) by omega]
          exact hat

/-- What a call for `len` bytes at `offset` writes, returns and leaves. -/
structure Produced (payload : List UInt8) (blocks : List BlockInfo) (offset len : ℕ) (chunk : Chunk) :
    Prop where
  bytes_eq : chunk.bytes = slice (body payload blocks) offset len
  produced_eq : chunk.produced = chunk.bytes.length
  last_eq : chunk.last = decide ((body payload blocks).length ≤ offset + len)
  bare_eq : chunk.blocks.map bare = blocks.map bare
  ready : ReadyAt payload chunk.blocks (offset + chunk.produced)

theorem produceFrom_spec {payload : List UInt8} {front : List BlockInfo} {final : BlockInfo}
    {offset : ℕ} (len : ℕ) (hgood : ∀ b ∈ front ++ [final], Good payload b)
    (hfront : ∀ b ∈ front, lastBlock b = .ok false) (hfinal : lastBlock final = .ok true)
    (hoff : offset < (body payload (front ++ [final])).length)
    (hr : ReadyAt payload (front ++ [final]) offset) :
    ∃ chunk, produceFrom payload len (front ++ [final]) offset = .ok chunk ∧
      Produced payload (front ++ [final]) offset len chunk := by
  by_cases hskip : ∃ b ∈ (front ++ [final]).head?, b.fullLength ≤ offset
  · -- the first block is skipped, so it is not the final one
    obtain ⟨b, hb, hle⟩ := hskip
    cases front with
    | nil =>
      obtain rfl : final = b := by simpa using hb
      rw [List.nil_append, body_cons, body_nil, List.append_nil,
        (hgood final (by simp)).length_wire] at hoff
      omega
    | cons c front =>
      obtain rfl : c = b := by simpa using hb
      have hwire := (hgood c (by simp)).length_wire
      rw [List.cons_append, body_cons, List.length_append, hwire] at hoff
      obtain ⟨chunk, hfrom, hchunk⟩ := produceFrom_spec len
        (fun d hd => hgood d (List.mem_cons_of_mem c hd))
        (fun d hd => hfront d (List.mem_cons_of_mem c hd)) hfinal
        (show offset - c.fullLength < _ by omega) hr.2
      refine ⟨{ chunk with blocks := c :: chunk.blocks }, ?_, ?_, hchunk.produced_eq, ?_, ?_, ?_⟩
      · simp only [List.cons_append, produceFrom, if_pos hle, hfrom, bind, Except.bind]
      · rw [hchunk.bytes_eq, List.cons_append, body_cons, slice_append_right (by omega), hwire]
      · rw [hchunk.last_eq, List.cons_append, body_cons, List.length_append, hwire, decide_eq_decide]
        omega
      · simp [hchunk.bare_eq]
      · refine ⟨fun ht hbound => ?_, ?_⟩
        · have hzero : chunk.produced = 0 := by
            simp only at hbound
            omega
          simp only [hzero, Nat.add_zero]
          exact hr.1 ht (by simp only at hbound; omega)
        · simp only
          rw [show offset + chunk.produced - c.fullLength = offset - c.fullLength + chunk.produced by omega]
          exact hchunk.ready
  · simp only [not_exists, not_and, not_le] at hskip
    obtain ⟨blocks', hcopy, hbare, hat⟩ := copyBlocks_spec len hgood hfront hfinal
      (fun b hb => Or.inl (hskip b hb)) hr
    obtain ⟨b, rest, hblocks⟩ := List.exists_cons_of_ne_nil
      (show front ++ [final] ≠ [] by simp)
    rw [hblocks] at hcopy hbare hat hskip ⊢
    refine ⟨_, by rw [produceFrom, if_neg (not_le.mpr (hskip b rfl)), hcopy]; rfl, rfl, ?_, rfl, hbare, ?_⟩
    · simp only [length_slice]
      omega
    · simp only
      rw [show len - (len - ((body payload (b :: rest)).length - offset)) =
        min len ((body payload (b :: rest)).length - offset) by omega]
      exact hat
termination_by front.length

theorem produce_spec {payload : List UInt8} {blocks : List BlockInfo} {offset len : ℕ}
    (h : Sendable payload blocks) (hlen : 1 ≤ len) (hoff : offset < (body payload blocks).length)
    (hr : ReadyAt payload blocks offset) :
    ∃ chunk, produce payload blocks offset len = .ok chunk ∧
      Produced payload blocks offset len chunk := by
  obtain ⟨front, final, rfl, hfront, hfinal⟩ := h.flagged
  rw [produce, if_neg (by omega)]
  exact produceFrom_spec len h.good hfront hfinal hoff hr

/-! ## Transmission -/

/-- The calls that gave `chunks` have sent `bytes`. Every call but the last returns what it was asked
for, and `last` is set by the call with which all bytes are sent. -/
structure Sends (bytes : List UInt8) (sizes : ℕ → ℕ) (chunks : List Chunk) : Prop where
  bytes_eq : chunks.flatMap Chunk.bytes = bytes
  produced_eq : ∀ c ∈ chunks, c.produced = c.bytes.length
  produced_le : ∀ j c, chunks[j]? = some c → c.produced ≤ sizes j
  full : ∀ j c, chunks[j]? = some c → j + 1 < chunks.length → c.produced = sizes j
  last_iff : ∀ j c, chunks[j]? = some c → (c.last = true ↔ j + 1 = chunks.length)
  reached_iff : ∀ j c, chunks[j]? = some c →
    (c.last = true ↔ ((chunks.take (j + 1)).map Chunk.produced).sum = bytes.length)

theorem Sends.single {c : Chunk} {sizes : ℕ → ℕ} (hp : c.produced = c.bytes.length)
    (hs : c.produced ≤ sizes 0) (hl : c.last = true) : Sends c.bytes sizes [c] where
  bytes_eq := by simp
  produced_eq := by simpa using hp
  produced_le := by
    intro j d hd
    obtain ⟨rfl, rfl⟩ : j = 0 ∧ c = d := by simpa [List.getElem?_singleton] using hd
    exact hs
  full := by simp
  last_iff := by
    intro j d hd
    obtain ⟨rfl, rfl⟩ : j = 0 ∧ c = d := by simpa [List.getElem?_singleton] using hd
    simp [hl]
  reached_iff := by
    intro j d hd
    obtain ⟨rfl, rfl⟩ : j = 0 ∧ c = d := by simpa [List.getElem?_singleton] using hd
    simp [hl, hp]

theorem Sends.cons {c : Chunk} {rest : List UInt8} {sizes : ℕ → ℕ} {chunks : List Chunk}
    (h : Sends rest (fun j => sizes (j + 1)) chunks) (hne : rest ≠ [])
    (hp : c.produced = c.bytes.length) (hs : c.produced = sizes 0) (hl : c.last = false) :
    Sends (c.bytes ++ rest) sizes (c :: chunks) where
  bytes_eq := by simp [h.bytes_eq]
  produced_eq := by simpa [hp] using h.produced_eq
  produced_le := by
    intro j d hd
    cases j with
    | zero => simp_all
    | succ j => exact h.produced_le j d (by simpa using hd)
  full := by
    intro j d hd hj
    cases j with
    | zero => simp_all
    | succ j => exact h.full j d (by simpa using hd) (by simpa using hj)
  last_iff := by
    intro j d hd
    cases j with
    | zero =>
      obtain rfl : c = d := by simpa using hd
      have hchunks : chunks ≠ [] := by
        rintro rfl
        exact hne h.bytes_eq.symm
      simp [hl, hchunks]
    | succ j => simpa using h.last_iff j d (by simpa using hd)
  reached_iff := by
    intro j d hd
    cases j with
    | zero =>
      obtain rfl : c = d := by simpa using hd
      simp [hl, hp, hne]
    | succ j =>
      rw [h.reached_iff j d (by simpa using hd)]
      simp [hp]

theorem transmit_sends {payload : List UInt8} {sizes : ℕ → ℕ} (hsizes : ∀ i, 1 ≤ sizes i)
    (calls i offset : ℕ) {blocks : List BlockInfo} (h : Sendable payload blocks)
    (hoff : offset < (body payload blocks).length)
    (hcalls : (body payload blocks).length ≤ offset + calls) (hr : ReadyAt payload blocks offset) :
    ∃ chunks, transmit payload sizes calls i offset blocks = .ok chunks ∧
      Sends ((body payload blocks).drop offset) (fun j => sizes (i + j)) chunks := by
  induction calls generalizing i offset blocks with
  | zero => omega
  | succ calls ih =>
    obtain ⟨chunk, hprod, hchunk⟩ := produce_spec h (hsizes i) hoff hr
    have hlen : chunk.bytes.length = min (sizes i) ((body payload blocks).length - offset) := by
      rw [hchunk.bytes_eq, length_slice]
    have hproduced := hchunk.produced_eq
    have hlast := hchunk.last_eq
    unfold transmit
    rw [transmitWith_ok hprod]
    split_ifs with hend
    · have hall : (body payload blocks).length ≤ offset + sizes i := by simpa [hlast] using hend
      have hdrop : chunk.bytes = (body payload blocks).drop offset := by
        rw [hchunk.bytes_eq]
        exact List.take_of_length_le (by simp; omega)
      refine ⟨[chunk], rfl, ?_⟩
      rw [← hdrop]
      exact Sends.single hproduced (by simp; omega) hend
    · have hshort : offset + sizes i < (body payload blocks).length := by simpa [hlast] using hend
      have hfull : chunk.produced = sizes i := by omega
      have hsize := hsizes i
      have hbody := body_bare payload hchunk.bare_eq
      have hready := hchunk.ready
      rw [hfull] at hready
      obtain ⟨chunks, hrun, hsends⟩ := ih (i + 1) (offset + sizes i) (h.of_bare hchunk.bare_eq)
        (by rw [hbody]; exact hshort) (by rw [hbody]; omega) hready
      rw [hbody] at hsends
      have hcut : (body payload blocks).drop offset =
          chunk.bytes ++ (body payload blocks).drop (offset + sizes i) := by
        rw [hchunk.bytes_eq, slice, ← List.drop_drop, List.take_append_drop]
      refine ⟨chunk :: chunks, ?_, ?_⟩
      · rw [hfull]
        exact congrArg (Except.map (chunk :: ·)) hrun
      · rw [hcut]
        refine Sends.cons ?_ ?_ hproduced (by simpa using hfull) (by simpa using hend)
        · simpa [Nat.add_comm, Nat.add_left_comm] using hsends
        · intro hnil
          have hzero := congrArg List.length hnil
          simp only [List.length_drop, List.length_nil] at hzero
          omega

/-- However the transmission is cut into chunks, it sends the contents of the blocks in order, with
the payload behind its preamble, and sets `last` with the call that reaches the end. -/
theorem transmit_chunks {payload : List UInt8} {blocks : List BlockInfo} {sizes : ℕ → ℕ}
    (h : Sendable payload blocks) (hfresh : ∀ b ∈ blocks, b.locals = none)
    (hsizes : ∀ i, 1 ≤ sizes i) :
    (body payload blocks).length = totalLength blocks ∧
      ∃ chunks, transmit payload sizes (totalLength blocks) 0 0 blocks = .ok chunks ∧
        Sends (body payload blocks) sizes chunks := by
  have hlength := length_body h.good
  refine ⟨hlength, ?_⟩
  have hpos : 0 < (body payload blocks).length := by
    obtain ⟨front, final, rfl, -, hfinal⟩ := h.flagged
    have hfull := fullLength_pos_of_lastBlock (h.good final (by simp)) hfinal
    have hwire := (h.good final (by simp)).length_wire
    simp [body_append]
    omega
  obtain ⟨chunks, hrun, hsends⟩ := transmit_sends hsizes (totalLength blocks) 0 0 h hpos
    (by omega) (readyAt_of_fresh hfresh 0)
  exact ⟨chunks, hrun, by simpa using hsends⟩

/-- A primary block, the payload block and a block behind it. -/
def threeBlocks : List BlockInfo :=
  [{ type := .primary, contents := [6, 0, 3], dataLength := 3 },
   { type := .payload, contents := [1, 0, 2], dataOffset := 3, dataLength := 2 },
   { type := .extension 5, contents := [5, 8, 1, 9], dataOffset := 3, dataLength := 1 }]

theorem threeBlocks_sendable : Sendable [10, 11] threeBlocks where
  good := by
    intro b hb
    simp only [threeBlocks, List.mem_cons, List.not_mem_nil, or_false] at hb
    rcases hb with rfl | rfl | rfl
    · exact Or.inl ⟨by decide, by decide, by decide⟩
    · exact Or.inr ⟨rfl, rfl, rfl, rfl⟩
    · exact Or.inl ⟨by decide, by decide, by decide⟩
  flagged := by
    refine ⟨threeBlocks.take 2, _, rfl, ?_, by decide +kernel⟩
    decide +kernel

/-- Chunks of three bytes end where the blocks do. -/
theorem transmit_chunks_exact : (body [10, 11] threeBlocks).length = totalLength threeBlocks ∧
    ∃ chunks, transmit [10, 11] (fun _ => 3) (totalLength threeBlocks) 0 0 threeBlocks = .ok chunks ∧
      Sends (body [10, 11] threeBlocks) (fun _ => 3) chunks :=
  transmit_chunks threeBlocks_sendable (by decide) fun _ => by decide

end Dtnme.Bundling.Bp6
