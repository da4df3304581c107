import Dtnme.Bundling.Bp6Consume

/-! # Which bytes abort the reception of a bundle of version 6

A round of the loop fails under conditions on the bundle and the bytes before it: a buffer that cannot
grow, lengths beyond the memory, an empty block that fills its buffer, references in a primary block,
a second payload, bytes behind the state of a multicast. Every other round returns and keeps the
invariant, so a reception fails exactly if it meets such a round.
-/

namespace Dtnme.Bundling
open Library Naming

namespace RecvBlock

/-- The buffer before a preamble is looked for. -/
def expandedLen (block : RecvBlock) : ℕ :=
  if block.bufLen = block.contents.length then block.contents.length + 64 else block.bufLen

/-- How many bytes of a chunk are looked at for a preamble. -/
def window (block : RecvBlock) : ℕ := block.expandedLen - block.contents.length

/-- Offset and length of the data once the preamble is known. -/
def header (block : RecvBlock) (dict data : List UInt8) : Option (ℕ × ℕ) :=
  if block.dataOffset = 0 then
    (preamble dict (block.contents ++ data.take block.window)).map fun p => (p.offset, p.blockLen)
  else some (block.dataOffset, block.dataLength)

end RecvBlock

/-! ## Data behind a preamble -/

/-- The preamble is known and data is missing, or there is none. -/
structure Started (host : Host) (block : RecvBlock) : Prop where
  incomplete : block.complete = false
  offset_ne : block.dataOffset ≠ 0
  offset_le : block.dataOffset ≤ block.contents.length
  dataLength_lt : block.dataLength < 2 ^ 64
  length_le : block.contents.length ≤ block.bufLen
  bufLen_le : block.bufLen ≤ host.memory
  empty : block.dataLength = 0 → block.contents.length = block.dataOffset
  missing : block.dataLength ≠ 0 → block.contents.length < block.dataOffset + block.dataLength

/-- What must hold if there are bytes for the data. -/
def DataFits (host : Host) (block : RecvBlock) (rest : List UInt8) : Prop :=
  rest ≠ [] → (block.dataLength = 0 → block.dataOffset < block.bufLen) ∧
    (block.dataLength ≠ 0 → block.dataOffset + block.dataLength ≤ host.memory)

/-- The block after as many of its bytes as there are. -/
structure Filled (host : Host) (block : RecvBlock) (rest : List UInt8) (block' : RecvBlock) : Prop where
  owner : block'.owner = block.owner
  dataOffset : block'.dataOffset = block.dataOffset
  dataLength : block'.dataLength = block.dataLength
  contents : block'.contents = block.contents ++
    rest.take (block.dataOffset + block.dataLength - block.contents.length)
  complete : block'.complete =
    decide (block.dataOffset + block.dataLength - block.contents.length ≤ rest.length)
  length_le : block'.contents.length ≤ block'.bufLen
  bufLen_le : block'.bufLen ≤ host.memory

section
variable {host : Host} {block : RecvBlock} {rest : List UInt8}

theorem RecvBlock.reserve_panic (block : RecvBlock) {memory size : ℕ} (hlen : block.bufLen < size)
    (hmem : memory < size) : block.reserve memory size = .error .panic := by
  unfold RecvBlock.reserve
  dsimp only
  rw [if_neg (by omega : size ≠ 0), if_neg (by omega), if_neg (by omega)]

theorem copyData_fault (h : Started host block) (hlen : block.dataLength ≠ 0)
    (hmem : ¬ block.dataOffset + block.dataLength ≤ host.memory) :
    ∃ e, copyData host.memory block rest = .error e := by
  have h1 := h.offset_le
  have h2 := h.dataLength_lt
  have h3 := h.length_le
  have h4 := h.bufLen_le
  have h5 := h.missing hlen
  have h6 := host.memory_lt
  by_cases hwrap : block.dataOffset + block.dataLength < 2 ^ 64
  · have hfull : block.fullLength = block.dataOffset + block.dataLength := u64_of_lt hwrap
    have hreserve : block.reserve host.memory block.fullLength = .error .panic :=
      block.reserve_panic (by omega) (by omega)
    rw [copyData, require_of (.inr (by omega))]
    simp only [bind, Except.bind, hreserve]
    exact ⟨_, rfl⟩
  · have hfull : block.fullLength = block.dataOffset + block.dataLength - 2 ^ 64 := by
      unfold RecvBlock.fullLength u64
      omega
    have hreq : ¬ (block.dataLength = 0 ∨ block.contents.length < block.fullLength) := by omega
    rw [copyData, require, if_neg hreq]
    exact ⟨_, rfl⟩

theorem consumeData_fault (h : Started host block) (hfits : ¬ DataFits host block rest) :
    ∃ e, consumeData host.memory block rest = .error e := by
  obtain ⟨hrest, hbad⟩ := Classical.not_imp.mp hfits
  rw [consumeData, require_of fun h0 => absurd h0 h.offset_ne]
  simp only [bind, Except.bind, if_neg hrest]
  by_cases hlen : block.dataLength = 0
  · have hfull : ¬ block.dataOffset < block.bufLen := fun hlt =>
      hbad ⟨fun _ => hlt, fun hne => absurd hlen hne⟩
    have hcl := h.empty hlen
    have hle := h.length_le
    have hm := h.bufLen_le
    have hm' := host.memory_lt
    have hpos := h.offset_ne
    have hfl : u64 (block.dataOffset + block.dataLength) = block.dataOffset := by
      rw [hlen, Nat.add_zero, u64_of_lt (by omega)]
    rw [RecvBlock.finishEmpty, if_pos ⟨h.offset_ne, hlen⟩, copyData, require_of (.inl hlen)]
    simp only [bind, Except.bind, RecvBlock.reserve, RecvBlock.fullLength, hfl, if_neg hpos]
    rw [if_pos (by omega)]
    simp only [RecvBlock.fill]
    rw [if_neg (by omega)]
    exact ⟨_, rfl⟩
  · have hfinish : block.finishEmpty = block := by
      rw [RecvBlock.finishEmpty, if_neg fun hc => hlen hc.2]
    have hmem : ¬ block.dataOffset + block.dataLength ≤ host.memory := fun hle =>
      hbad ⟨fun h0 => absurd h0 hlen, fun _ => hle⟩
    rw [hfinish]
    exact copyData_fault h hlen hmem

theorem consumeData_filled (h : Started host block) (hfits : DataFits host block rest) :
    ∃ block', consumeData host.memory block rest =
      .ok (min (block.dataOffset + block.dataLength - block.contents.length) rest.length, block') ∧
      Filled host block rest block' := by
  have hcl := h.length_le
  have hm := h.bufLen_le
  have hm' := host.memory_lt
  have hoff := h.offset_le
  rw [consumeData, require_of fun h0 => absurd h0 h.offset_ne]
  simp only [bind, Except.bind]
  by_cases hlen : block.dataLength = 0
  · have hempty := h.empty hlen
    have hne := h.offset_ne
    have hzero : block.dataOffset + block.dataLength - block.contents.length = 0 := by omega
    -- the block is marked complete before anything is copied
    obtain ⟨done, hdone⟩ : ∃ done, done = block.finishEmpty := ⟨_, rfl⟩
    have hmarked : done = { block with complete := true } := by
      rw [hdone, RecvBlock.finishEmpty, if_pos ⟨hne, hlen⟩]
    have howner : done.owner = block.owner := by rw [hmarked]
    have hdo : done.dataOffset = block.dataOffset := by rw [hmarked]
    have hdl : done.dataLength = block.dataLength := by rw [hmarked]
    have hdc : done.contents = block.contents := by rw [hmarked]
    have hdb : done.bufLen = block.bufLen := by rw [hmarked]
    have hcomplete : done.complete = true := by rw [hmarked]
    have hfull : done.fullLength = block.contents.length := by
      rw [RecvBlock.fullLength, hdo, hdl, hlen, Nat.add_zero, u64_of_lt (by omega), hempty]
    rw [← hdone]
    by_cases hrest : rest = []
    · rw [if_pos hrest]
      refine ⟨done, ?_, howner, hdo, hdl, ?_, ?_, ?_, ?_⟩
      · rw [hzero, Nat.zero_min]
        rfl
      · rw [hzero, List.take_zero, List.append_nil, hdc]
      · rw [hcomplete, hzero]
        simp
      · rw [hdc, hdb]
        exact hcl
      · rw [hdb]
        exact hm
    · have hroom := (hfits hrest).1 hlen
      have hcopy : copyData host.memory done rest = _ :=
        copyData_eq (.inl (hdl.trans hlen)) (by omega) (by omega) (by rw [hdc]; omega)
          (by rw [hdc]; omega)
      rw [if_neg hrest, hcopy, hfull, hdc, Nat.sub_self, hzero]
      refine ⟨_, rfl, howner, hdo, hdl, ?_, ?_, ?_, ?_⟩
      · rw [hzero]
      · rw [hzero, hcomplete]
        simp
      · simp only [List.take_zero, List.append_nil]
        omega
      · dsimp only
        omega
  · have hfinish : block.finishEmpty = block := by
      rw [RecvBlock.finishEmpty, if_neg fun hc => hlen hc.2]
    have hmiss := h.missing hlen
    rw [hfinish]
    by_cases hrest : rest = []
    · rw [if_pos hrest, hrest]
      refine ⟨block, by rw [List.length_nil, Nat.min_zero]; rfl, ⟨rfl, rfl, rfl, by simp, ?_, hcl, hm⟩⟩
      rw [h.incomplete, List.length_nil]
      exact (decide_eq_false (by omega)).symm
    · have hle := (hfits hrest).2 hlen
      have hfull : block.fullLength = block.dataOffset + block.dataLength := u64_of_lt (by omega)
      rw [if_neg hrest, copyData_eq (.inr (by omega)) (by omega) (by omega) (by omega) (by omega), hfull]
      refine ⟨_, rfl, ⟨rfl, rfl, rfl, rfl, ?_, ?_, ?_⟩⟩
      · rw [h.incomplete, Bool.false_or]
      · simp only [List.length_append, List.length_take]
        omega
      · dsimp only
        omega

end

/-! ## The preamble -/

/-- Offset and length were read from the start of the contents. -/
def Parsed (dict contents : List UInt8) (off len : ℕ) : Prop :=
  ∃ p, preamble dict (contents.take off) = some p ∧ p.offset = off ∧ p.blockLen = len

theorem Parsed.append {dict contents : List UInt8} {off len : ℕ} (h : Parsed dict contents off len)
    (hle : off ≤ contents.length) (m : List UInt8) : Parsed dict (contents ++ m) off len := by
  unfold Parsed
  rw [List.take_append_of_le_length hle]
  exact h

/-- A block that more bytes are for, the next ones `data`. -/
structure Receiving (host : Host) (b : RecvBundle) (block : RecvBlock) (data : List UInt8) : Prop where
  incomplete : block.complete = false
  length_le : block.contents.length ≤ block.bufLen
  bufLen_le : block.bufLen ≤ host.memory
  near : block.dataOffset = 0 → block.bufLen ≤ block.contents.length + 64
  eids : block.dataOffset = 0 → block.eidList = []
  pending : block.dataOffset = 0 → preamble b.dict block.contents = none
  parsed : block.dataOffset ≠ 0 → Parsed b.dict block.contents block.dataOffset block.dataLength
  started : block.dataOffset ≠ 0 → Started host block
  missing : block.dataOffset ≠ 0 → block.dataLength ≠ 0
  payload : block.owner = .payload → block.dataOffset ≠ 0 →
    block.contents.length = block.dataOffset ∧ b.nodata = false ∧
      b.payload.length < block.dataLength
  version : block.owner = .primary → b.dict = [] ∨ (block.contents ++ data).head? = some 0
  metadata : block.owner = .metadata → (block.contents ++ data).head? = some 0x08

namespace RecvBlock

/-- With the bytes that are looked at for a preamble. -/
def opened (block : RecvBlock) (data : List UInt8) : RecvBlock :=
  { block with
    bufLen := block.expandedLen
    contents := block.contents ++ data.take block.window }

end RecvBlock

section
variable {host : Host} {b : RecvBundle} {block : RecvBlock} {data : List UInt8}

theorem Receiving.more (h : Receiving host b block []) (data : List UInt8) : Receiving host b block data := by
  have hhead : ∀ v, (block.contents ++ []).head? = some v → (block.contents ++ data).head? = some v := by
    intro v hv
    rw [List.append_nil] at hv
    rw [List.head?_append, hv]
    rfl
  exact ⟨h.1, h.2, h.3, h.4, h.5, h.6, h.7, h.8, h.9, h.10, fun ho => (h.version ho).imp_right (hhead 0),
    fun ho => hhead 8 (h.metadata ho)⟩

/-- Room for the next part of a preamble. -/
def Grows (host : Host) (block : RecvBlock) : Prop :=
  block.bufLen = block.contents.length → block.contents.length + 64 ≤ host.memory

theorem consumePreamble_fault (h : Receiving host b block data) (h0 : block.dataOffset = 0)
    (hgrow : ¬ Grows host block) :
    ∃ e, consumePreamble host.memory b.dict block data = .error e := by
  obtain ⟨hfull, hmem⟩ := Classical.not_imp.mp hgrow
  have hexpand : block.expand host.memory = .error .panic := by
    rw [RecvBlock.expand, if_pos hfull]
    exact block.reserve_panic (by omega) (by omega)
  rw [consumePreamble, require_of h.incomplete, require_of h0, require_of h.length_le]
  simp only [bind, Except.bind, hexpand]
  exact ⟨_, rfl⟩

theorem expand_eq (hgrow : Grows host block) :
    block.expand host.memory = .ok { block with bufLen := block.expandedLen } := by
  unfold RecvBlock.expand RecvBlock.expandedLen
  split_ifs with hfull
  · rw [RecvBlock.reserve_of_le block (by omega) (hgrow hfull)]
    congr 2
    omega
  · rfl

theorem length_lt_expandedLen (h : Receiving host b block data) :
    block.contents.length < block.expandedLen := by
  have := h.length_le
  unfold RecvBlock.expandedLen
  split_ifs <;> omega

theorem expandedLen_le (h : Receiving host b block data) (hgrow : Grows host block) :
    block.expandedLen ≤ host.memory := by
  unfold RecvBlock.expandedLen
  split_ifs with hfull
  · exact hgrow hfull
  · exact h.bufLen_le

theorem window_le (h : Receiving host b block data) (h0 : block.dataOffset = 0) : block.window ≤ 64 := by
  have := h.near h0
  unfold RecvBlock.window RecvBlock.expandedLen
  split_ifs <;> omega

theorem consumePreamble_eq (h : Receiving host b block data) (h0 : block.dataOffset = 0)
    (hgrow : Grows host block) :
    consumePreamble host.memory b.dict block data =
      .ok (match preamble b.dict (block.opened data).contents with
        | none =>
          (if data.length ≤ block.window then some data.length else none, block.opened data)
        | some p => (some (p.offset - block.contents.length), (block.opened data).start p)) := by
  have hlt := length_lt_expandedLen h
  have hwindow : block.expandedLen - block.contents.length = block.window := rfl
  have htake : data.take (min data.length block.window) = data.take block.window := by
    rw [min_comm, ← List.take_take, List.take_length]
  have hfill : ({ block with bufLen := block.expandedLen } : RecvBlock).fill
      (data.take block.window) = .ok (block.opened data) :=
    RecvBlock.fill_of_le _ hlt (by
      rw [List.length_take]
      dsimp only
      omega)
  have hmin : (min data.length block.window = data.length) = (data.length ≤ block.window) :=
    propext min_eq_left_iff
  rw [consumePreamble, require_of h.incomplete, require_of h0, require_of h.length_le]
  simp only [bind, Except.bind, expand_eq hgrow, hwindow, htake, require_of hlt, hfill, hmin]
  have hdict : (block.opened data).eidList = block.eidList := rfl
  cases preamble b.dict (block.opened data).contents with
  | none => rfl
  | some p =>
    dsimp only
    rw [require_of (hdict.trans (h.eids h0))]
    rfl

/-- A preamble that is found now. -/
structure Found (host : Host) (b : RecvBundle) (block : RecvBlock) (data : List UInt8)
    (p : Preamble) : Prop where
  offset_gt : block.contents.length < p.offset
  offset_le : p.offset ≤ (block.contents ++ data).length
  three_le : 3 ≤ p.offset
  window : p.offset - block.contents.length ≤ 64
  contents : ((block.opened data).start p).contents = (block.contents ++ data).take p.offset
  started : Started host ((block.opened data).start p)
  parsed : Parsed b.dict ((block.opened data).start p).contents p.offset p.blockLen

theorem Receiving.found (h : Receiving host b block data) (h0 : block.dataOffset = 0)
    (hgrow : Grows host block) {p : Preamble}
    (hp : preamble b.dict (block.opened data).contents = some p) : Found host b block data p := by
  obtain ⟨hthree, hle, hlen⟩ := preamble_bound hp
  have hlt := length_lt_expandedLen h
  have hwin := window_le h h0
  have hopened : (block.opened data).contents = block.contents ++ data.take block.window := rfl
  have hopenedLen : (block.opened data).contents.length ≤ block.expandedLen := by
    rw [hopened, List.length_append, List.length_take]
    unfold RecvBlock.window
    omega
  have hgt : block.contents.length < p.offset := by
    by_contra hno
    rw [hopened] at hp
    have hearly := preamble_of_append hp (by omega)
    rw [h.pending h0] at hearly
    cases hearly
  have hle' : p.offset ≤ block.contents.length + min block.window data.length := by
    rw [hopened, List.length_append, List.length_take] at hle
    exact hle
  have hcontents : ((block.opened data).start p).contents =
      (block.contents ++ data).take p.offset := by
    change (block.contents ++ data.take block.window).take p.offset = _
    have hsplit : block.contents ++ data =
        (block.contents ++ data.take block.window) ++ data.drop block.window := by
      rw [List.append_assoc, List.take_append_drop]
    rw [hsplit, List.take_append_of_le_length (hopened ▸ hle : p.offset ≤
      (block.contents ++ data.take block.window).length)]
  have hlength : ((block.opened data).start p).contents.length = p.offset := by
    rw [hcontents, List.length_take, List.length_append]
    omega
  refine ⟨hgt, by rw [List.length_append]; omega, hthree, by omega, hcontents, ?_, ?_⟩
  · refine ⟨h.incomplete, ?_, ?_, hlen, ?_, expandedLen_le h hgrow, fun _ => hlength, fun hne => ?_⟩
    · change p.offset ≠ 0
      omega
    · rw [hlength]
      exact le_rfl
    · rw [hlength]
      exact le_trans hle hopenedLen
    · rw [hlength]
      exact Nat.lt_add_of_pos_right (Nat.pos_of_ne_zero hne)
  · refine ⟨p, ?_, rfl, rfl⟩
    change preamble b.dict (((block.opened data).contents.take p.offset).take p.offset) = some p
    rw [List.take_take, min_self]
    exact preamble_take hp le_rfl

/-! ## Blocks that wait for all of their data -/

/-- What must hold for the bytes of a block that keeps its data. -/
structure BlockFits (host : Host) (b : RecvBundle) (block : RecvBlock) (data : List UInt8) :
    Prop where
  grows : block.dataOffset = 0 → Grows host block
  room : ∀ off, block.header b.dict data = some (off, 0) →
    off < (block.contents ++ data).length → off < block.expandedLen
  fits : ∀ off len, block.header b.dict data = some (off, len) → len ≠ 0 →
    off < (block.contents ++ data).length → off + len ≤ host.memory

/-- A block after its last byte. -/
structure Completed (host : Host) (b : RecvBundle) (block : RecvBlock) (data : List UInt8) (cc : ℕ)
    (block' : RecvBlock) : Prop where
  complete : block'.complete = true
  owner : block'.owner = block.owner
  header : block.header b.dict data = some (block'.dataOffset, block'.dataLength)
  offset_pos : 0 < block'.dataOffset
  end_le : block'.dataOffset + block'.dataLength ≤ (block.contents ++ data).length
  end_lt : block'.dataOffset + block'.dataLength < 2 ^ 64
  contents : block'.contents =
    (block.contents ++ data).take (block'.dataOffset + block'.dataLength)
  parsed : Parsed b.dict block'.contents block'.dataOffset block'.dataLength
  used_pos : 0 < cc
  used_le : cc ≤ data.length

inductive Consumes (host : Host) (b : RecvBundle) (block : RecvBlock) (data : List UInt8) :
    Except Fault (Option ℕ × RecvBlock) → Prop
  | fault (e : Fault) (h : ¬ BlockFits host b block data) : Consumes host b block data (.error e)
  | reject (block' : RecvBlock) (h : BlockFits host b block data)
      (hheader : block.header b.dict data = none) : Consumes host b block data (.ok (none, block'))
  | waits (block' : RecvBlock) (h : BlockFits host b block data) (howner : block'.owner = block.owner)
      (hready : Receiving host b block' [])
      (hshort : ∀ off len, block.header b.dict data = some (off, len) →
        (block.contents ++ data).length < off + len)
      (hsmall : block.header b.dict data = none → data.length ≤ 64) :
      Consumes host b block data (.ok (some data.length, block'))
  | completes (cc : ℕ) (block' : RecvBlock) (h : BlockFits host b block data)
      (hdone : Completed host b block data cc block') :
      Consumes host b block data (.ok (some cc, block'))

end

section
variable {host : Host} {b : RecvBundle} {block : RecvBlock} {data : List UInt8}

/-- A block that is filled is complete or waits, seen from the bytes that were there. -/
theorem Filled.consumes {s s' : RecvBlock} {rest : List UInt8} {cc : ℕ} (h : Receiving host b block data)
    (hp : block.owner ≠ .payload) (hfits : BlockFits host b block data) (hs : Started host s)
    (hall : s.contents ++ rest = block.contents ++ data) (howner : s.owner = block.owner)
    (hheader : block.header b.dict data = some (s.dataOffset, s.dataLength))
    (hparsed : Parsed b.dict s.contents s.dataOffset s.dataLength) (hfill : Filled host s rest s')
    (hcc : block.contents.length + cc = s.contents.length +
      min (s.dataOffset + s.dataLength - s.contents.length) rest.length)
    (hpos : 0 < cc) : Consumes host b block data (.ok (some cc, s')) := by
  have hlen := congrArg List.length hall
  rw [List.length_append, List.length_append] at hlen
  have hoff := hs.offset_le
  have hne := hs.offset_ne
  have hm := host.memory_lt
  have hle := hfill.length_le
  have hm' := hfill.bufLen_le
  have hheader' : block.header b.dict data = some (s'.dataOffset, s'.dataLength) := by
    rw [hheader, hfill.dataOffset, hfill.dataLength]
  have hpreamble : Parsed b.dict s'.contents s'.dataOffset s'.dataLength := by
    rw [hfill.contents, hfill.dataOffset, hfill.dataLength]
    exact hparsed.append hoff _
  have howner' : s'.owner = block.owner := hfill.owner.trans howner
  by_cases hdone : s.dataOffset + s.dataLength - s.contents.length ≤ rest.length
  · have hreach : s.contents.length ≤ s.dataOffset + s.dataLength := by
      by_cases hzero : s.dataLength = 0
      · rw [hs.empty hzero]
        omega
      · exact (hs.missing hzero).le
    have hcontents : s'.contents =
        (block.contents ++ data).take (s'.dataOffset + s'.dataLength) := by
      rw [hfill.contents, hfill.dataOffset, hfill.dataLength, ← hall, List.take_append,
        List.take_of_length_le hreach]
    have hsize := congrArg List.length hfill.contents
    rw [List.length_append, List.length_take] at hsize
    refine .completes cc s' hfits ⟨?_, howner', hheader', ?_, ?_, ?_, hcontents, hpreamble, hpos, ?_⟩
    · rw [hfill.complete]
      exact decide_eq_true hdone
    · rw [hfill.dataOffset]
      omega
    · rw [hfill.dataOffset, hfill.dataLength, List.length_append]
      omega
    · rw [hfill.dataOffset, hfill.dataLength]
      omega
    · omega
  · have hcontents : s'.contents = block.contents ++ data := by
      rw [hfill.contents, List.take_of_length_le (by omega), hall]
    have hcc' : cc = data.length := by omega
    have hmissing : s'.contents.length < s'.dataOffset + s'.dataLength := by
      rw [hcontents, hfill.dataOffset, hfill.dataLength, List.length_append]
      omega
    have hincomplete : s'.complete = false := by
      rw [hfill.complete]
      exact decide_eq_false hdone
    have hnonzero : s'.dataLength ≠ 0 := by
      rw [hfill.dataLength]
      omega
    have hoff' : s'.dataOffset ≤ s'.contents.length := by
      rw [hcontents, hfill.dataOffset, List.length_append]
      omega
    have hne' : s'.dataOffset ≠ 0 := by
      rw [hfill.dataOffset]
      exact hne
    have hlt : s'.dataLength < 2 ^ 64 := by
      rw [hfill.dataLength]
      exact hs.dataLength_lt
    rw [hcc']
    refine .waits s' hfits howner' ⟨hincomplete, hle, hm', fun h0 => absurd h0 hne',
      fun h0 => absurd h0 hne', fun h0 => absurd h0 hne', fun _ => hpreamble,
      fun _ => ⟨hincomplete, hne', hoff', hlt, hle, hm', fun h0 => absurd h0 hnonzero,
        fun _ => hmissing⟩, fun _ => hnonzero, fun ho => absurd (howner'.symm.trans ho) hp, ?_, ?_⟩
      ?_ ?_
    · intro ho
      rw [List.append_nil, hcontents]
      exact h.version (howner'.symm.trans ho)
    · intro ho
      rw [List.append_nil, hcontents]
      exact h.metadata (howner'.symm.trans ho)
    · intro off len hol
      rw [hheader', Option.some.injEq, Prod.mk.injEq] at hol
      rw [← hcontents, ← hol.1, ← hol.2]
      exact hmissing
    · intro hnone
      rw [hheader] at hnone
      cases hnone

/-- A block whose preamble is not there yet waits with what it has. -/
theorem Receiving.opened (h : Receiving host b block data) (h0 : block.dataOffset = 0)
    (hgrow : Grows host block) (hw : data.length ≤ block.window)
    (hnone : preamble b.dict (block.opened data).contents = none) :
    Receiving host b (block.opened data) [] := by
  have hlt := length_lt_expandedLen h
  have hcontents : (block.opened data).contents = block.contents ++ data := by
    change block.contents ++ data.take block.window = _
    rw [List.take_of_length_le hw]
  have hnear := h.near h0
  refine ⟨h.incomplete, ?_, expandedLen_le h hgrow, fun _ => ?_, fun _ => h.eids h0, fun _ => hnone,
    fun hne => absurd h0 hne, fun hne => absurd h0 hne, fun hne => absurd h0 hne,
    fun _ hne => absurd h0 hne, fun ho => ?_, fun ho => ?_⟩
  · rw [hcontents, List.length_append]
    change _ ≤ block.expandedLen
    unfold RecvBlock.window at hw
    omega
  · rw [hcontents, List.length_append]
    change block.expandedLen ≤ _
    unfold RecvBlock.expandedLen
    split_ifs <;> omega
  · rw [List.append_nil, hcontents]
    exact h.version ho
  · rw [List.append_nil, hcontents]
    exact h.metadata ho

theorem header_of_zero (h0 : block.dataOffset = 0) (dict data : List UInt8) :
    block.header dict data =
      (preamble dict (block.opened data).contents).map fun p => (p.offset, p.blockLen) := if_pos h0

theorem header_of_ne (hne : block.dataOffset ≠ 0) (dict data : List UInt8) :
    block.header dict data = some (block.dataOffset, block.dataLength) := if_neg hne

/-- The bytes behind a preamble that was found. -/
theorem Found.append {p : Preamble} (hf : Found host b block data p) :
    ((block.opened data).start p).contents ++ data.drop (p.offset - block.contents.length) =
      block.contents ++ data := by
  have hgt := hf.offset_gt
  have hdrop : data.drop (p.offset - block.contents.length) =
      (block.contents ++ data).drop p.offset := by
    rw [List.drop_append, List.drop_of_length_le hgt.le, List.nil_append]
  rw [hf.contents, hdrop, List.take_append_drop]

/-- The head of the block is not all there yet. -/
theorem consumeBlock_waiting (h : Receiving host b block data) (h0 : block.dataOffset = 0)
    (hgrow : Grows host block) (hpre : preamble b.dict (block.opened data).contents = none) :
    Consumes host b block data (consumeBlock host.memory b.dict block data) := by
  have hstart : consumeStart host.memory b.dict block data =
      consumePreamble host.memory b.dict block data := if_pos h0
  rw [consumeBlock, require_of h.incomplete]
  simp only [bind, Except.bind]
  rw [hstart, consumePreamble_eq h h0 hgrow]
  have hheader := header_of_zero h0 b.dict data
  rw [hpre, Option.map_none] at hheader
  rw [hpre]
  have hfits : BlockFits host b block data := by
    refine ⟨fun _ => hgrow, fun off ho => ?_, fun off len ho => ?_⟩ <;>
      simp [hheader] at ho
  by_cases hw : data.length ≤ block.window
  · have hopen : consumeData host.memory (block.opened data) [] =
        .ok (0, block.opened data) := by
      rw [consumeData, require_of fun _ => rfl]
      have hfinish : (block.opened data).finishEmpty = block.opened data := by
        rw [RecvBlock.finishEmpty, if_neg fun hc => hc.1 h0]
      simp only [bind, Except.bind, if_true, hfinish]
      rfl
    simp only [if_pos hw, List.drop_length, hopen]
    refine .waits _ hfits rfl (h.opened h0 hgrow hw hpre) (fun off len ho => ?_)
      fun _ => le_trans hw (window_le h h0)
    simp [hheader] at ho
  · simp only [if_neg hw]
    exact .reject _ hfits hheader

/-- The head of the block is there, with some of its data. -/
theorem consumeBlock_opened (h : Receiving host b block data) (hp : block.owner ≠ .payload)
    (h0 : block.dataOffset = 0) (hgrow : Grows host block) {p : Preamble}
    (hpre : preamble b.dict (block.opened data).contents = some p) :
    Consumes host b block data (consumeBlock host.memory b.dict block data) := by
  have hstart : consumeStart host.memory b.dict block data =
      consumePreamble host.memory b.dict block data := if_pos h0
  rw [consumeBlock, require_of h.incomplete]
  simp only [bind, Except.bind]
  rw [hstart, consumePreamble_eq h h0 hgrow]
  have hheader := header_of_zero h0 b.dict data
  rw [hpre, Option.map_some] at hheader
  rw [hpre]
  have hf := h.found h0 hgrow hpre
  have hgt := hf.offset_gt
  have hall := hf.append
  have hslen : ((block.opened data).start p).contents.length = p.offset := by
    rw [hf.contents, List.length_take]
    exact min_eq_left hf.offset_le
  have hlen := congrArg List.length hall
  rw [List.length_append, hslen, List.length_drop] at hlen
  dsimp only
  by_cases hdata : DataFits host ((block.opened data).start p)
      (data.drop (p.offset - block.contents.length))
  · obtain ⟨s', hs', hfill⟩ := consumeData_filled hf.started hdata
    rw [hs']
    refine hfill.consumes h hp ?_ hf.started hall rfl hheader hf.parsed ?_ (by omega)
    · have hrest : p.offset < (block.contents ++ data).length →
          data.drop (p.offset - block.contents.length) ≠ [] := by
        intro hlt hnil
        rw [← List.length_eq_zero_iff, List.length_drop] at hnil
        omega
      refine ⟨fun _ => hgrow, fun off ho hlt => ?_, fun off len ho hne hlt => ?_⟩
      · rw [hheader, Option.some.injEq, Prod.mk.injEq] at ho
        rw [← ho.1] at hlt ⊢
        exact (hdata (hrest hlt)).1 ho.2
      · rw [hheader, Option.some.injEq, Prod.mk.injEq] at ho
        rw [← ho.1] at hlt ⊢
        rw [← ho.2] at hne ⊢
        exact (hdata (hrest hlt)).2 hne
    · rw [hslen]
      omega
  · obtain ⟨e, he⟩ := consumeData_fault hf.started hdata
    rw [he]
    refine .fault e fun hfits => hdata fun hrest => ?_
    have hlt : p.offset < (block.contents ++ data).length := by
      have := List.length_pos_iff.mpr hrest
      rw [List.length_drop] at this
      omega
    exact ⟨fun hzero => hfits.room p.offset (by rw [hheader]; exact congrArg _ (congrArg _ hzero))
      hlt, fun hne => hfits.fits p.offset p.blockLen hheader hne hlt⟩

/-- More data for a block whose head is there. -/
theorem consumeBlock_continued (h : Receiving host b block data) (hd : data ≠ [])
    (hp : block.owner ≠ .payload) (h0 : block.dataOffset ≠ 0) :
    Consumes host b block data (consumeBlock host.memory b.dict block data) := by
  have hdpos := List.length_pos_iff.mpr hd
  rw [consumeBlock, require_of h.incomplete]
  simp only [bind, Except.bind]
  have hstart : consumeStart host.memory b.dict block data = .ok (some 0, block) := if_neg h0
  have hs := h.started h0
  have hmiss := hs.missing (h.missing h0)
  have hheader := header_of_ne h0 b.dict data
  have hlt : block.dataOffset < (block.contents ++ data).length := by
    have := hs.offset_le
    rw [List.length_append]
    omega
  rw [hstart]
  dsimp only
  rw [List.drop_zero]
  by_cases hdata : DataFits host block data
  · obtain ⟨s', hs', hfill⟩ := consumeData_filled hs hdata
    rw [hs']
    refine hfill.consumes h hp ?_ hs rfl rfl hheader (h.parsed h0) (by omega) (by omega)
    refine ⟨fun hz => absurd hz h0, fun off ho _ => ?_, fun off len ho hne _ => ?_⟩
    · rw [hheader, Option.some.injEq, Prod.mk.injEq] at ho
      exact absurd ho.2 (h.missing h0)
    · rw [hheader, Option.some.injEq, Prod.mk.injEq] at ho
      rw [← ho.1, ← ho.2]
      exact (hdata hd).2 (h.missing h0)
  · obtain ⟨e, he⟩ := consumeData_fault hs hdata
    rw [he]
    refine .fault e fun hfits => hdata fun _ => ⟨fun hzero => absurd hzero (h.missing h0),
      fun hne => hfits.fits _ _ hheader hne hlt⟩

/-- `BP6_BlockProcessor::consume` on a block that is not complete. -/
theorem consumeBlock_spec (h : Receiving host b block data) (hd : data ≠ [])
    (hp : block.owner ≠ .payload) :
    Consumes host b block data (consumeBlock host.memory b.dict block data) := by
  by_cases h0 : block.dataOffset = 0
  · by_cases hgrow : Grows host block
    · cases hpre : preamble b.dict (block.opened data).contents with
      | none => exact consumeBlock_waiting h h0 hgrow hpre
      | some p => exact consumeBlock_opened h hp h0 hgrow hpre
    · have hstart : consumeStart host.memory b.dict block data =
          consumePreamble host.memory b.dict block data := if_pos h0
      obtain ⟨e, he⟩ := consumePreamble_fault h h0 hgrow
      rw [consumeBlock, require_of h.incomplete]
      simp only [bind, Except.bind]
      rw [hstart, he]
      exact .fault e fun hfits => hgrow (hfits.grows h0)
  · exact consumeBlock_continued h hd hp h0

end

/-! ## One processor -/

/-- Offset and length of a block that ends within the chunk. -/
def EndsIn (block : RecvBlock) (dict data : List UInt8) (off len : ℕ) : Prop :=
  block.header dict data = some (off, len) ∧ off + len ≤ (block.contents ++ data).length

/-- The data of such a block. -/
def dataAt (block : RecvBlock) (data : List UInt8) (off len : ℕ) : List UInt8 :=
  ((block.contents ++ data).drop off).take len

/-- A primary block of version 6 has no references. -/
def NoReferences (block : RecvBlock) (data : List UInt8) : Prop :=
  (block.contents ++ data).head? = some 6 → ∀ flags n,
    readSdnv ((block.contents ++ data).drop 1) = some (flags, n) → flags.testBit 6 = false

/-- The creator's buffer has a size of 32 bits, or custody was settled by an earlier block. -/
def CreatorFits (b : RecvBundle) (block : RecvBlock) (data : List UInt8) (off len : ℕ) : Prop :=
  b.ctebValid = false → readSdnv ((dataAt block data off len).take (u32 len)) = none →
    u32 (u32 len + 1) + 1 < 2 ^ 32

/-- Nothing stands behind the regions. -/
def RegionsLast (block : RecvBlock) (data : List UInt8) (off len : ℕ) : Prop :=
  ∀ nodes regions rest, readImcState (dataAt block data off len) = some (nodes, regions, rest) →
    rest = []

/-- The condition under which a processor does not abort. -/
structure OwnerOk (host : Host) (b : RecvBundle) (block : RecvBlock) (data : List UInt8) : Prop where
  grows : block.dataOffset = 0 → Grows host block
  blockFits : block.owner ≠ .payload → BlockFits host b block data
  onePayload : block.owner = .payload → block.dataOffset = 0 →
    b.payload = [] ∨ (block.window < data.length ∧ block.header b.dict data = none)
  chunk : block.owner = .primary ∨ block.owner = .custodyTransferEnhancement →
    ∀ off len, block.header b.dict data = some (off, len) →
      (block.contents ++ data).length < off + len → data.length < 2 ^ 31
  references : block.owner = .primary → ∀ off len, EndsIn block b.dict data off len →
    NoReferences block data
  creator : block.owner = .custodyTransferEnhancement → ∀ off len, EndsIn block b.dict data off len →
    CreatorFits b block data off len
  regions : block.owner = .imcState → ∀ off len, EndsIn block b.dict data off len →
    RegionsLast block data off len

/-- What a round gives, and that it aborts exactly if its condition `P` fails. -/
inductive Rounds (host : Host) (data : List UInt8) (P : Prop) :
    Except Fault (Option ℕ × RecvBlock × RecvBundle) → Prop
  | fault (e : Fault) (h : ¬ P) : Rounds host data P (.error e)
  | reject (block' : RecvBlock) (b' : RecvBundle) (h : P) :
      Rounds host data P (.ok (none, block', b'))
  | waits (block' : RecvBlock) (b' : RecvBundle) (h : P) (hready : Receiving host b' block' []) :
      Rounds host data P (.ok (some data.length, block', b'))
  | completes (cc : ℕ) (block' : RecvBlock) (b' : RecvBundle) (h : P)
      (hcomplete : block'.complete = true) (hlast : ∃ last, block'.lastBlock = .ok last)
      (hpos : 0 < cc) (hle : cc ≤ data.length) : Rounds host data P (.ok (some cc, block', b'))

/-- The flags can be read from the contents. -/
theorem Parsed.flags {dict contents : List UInt8} {off len : ℕ} (h : Parsed dict contents off len) :
    ∃ flags n, readSdnv (contents.drop 1) = some (flags, n) := by
  obtain ⟨p, hp, -, -⟩ := h
  obtain ⟨n, o, k, hflags, -, -, -⟩ := preamble_eq_some hp
  rw [List.drop_take] at hflags
  have hread := readSdnv_append ((contents.drop 1).drop (off - 1)) hflags
  rw [List.take_append_drop] at hread
  exact ⟨_, _, hread⟩

theorem lastBlock_ok {dict : List UInt8} {block : RecvBlock} {off len : ℕ}
    (h : Parsed dict block.contents off len) : ∃ last, block.lastBlock = .ok last := by
  obtain ⟨flags, n, hread⟩ := h.flags
  unfold RecvBlock.lastBlock
  split_ifs
  · exact ⟨_, rfl⟩
  · unfold RecvBlock.blockFlags
    split_ifs
    · exact ⟨_, rfl⟩
    · rw [hread]
      exact ⟨_, rfl⟩

section
variable {host : Host} {b : RecvBundle} {block : RecvBlock} {data : List UInt8}

theorem Completed.data_eq {cc : ℕ} {block' : RecvBlock} (h : Completed host b block data cc block') :
    block'.data = dataAt block data block'.dataOffset block'.dataLength := by
  rw [RecvBlock.data, h.contents, dataAt, List.drop_take, Nat.add_sub_cancel_left, List.take_take,
    min_self]

theorem Completed.ends {cc : ℕ} {block' : RecvBlock} (h : Completed host b block data cc block') :
    EndsIn block b.dict data block'.dataOffset block'.dataLength := ⟨h.header, h.end_le⟩

/-- A processor that waits for the whole block aborts if the block does not fit, if it compares
lengths of different sizes, or if its own end does. -/
theorem consumeThen_rounds {P : Prop} {expected : ℕ → ℤ} (Fine : ℕ → ℕ → Prop)
    {finish : RecvBundle → RecvBlock → Except Fault (Option RecvBundle)}
    (h : Receiving host b block data) (hd : data ≠ []) (hp : block.owner ≠ .payload)
    (hP : P ↔ BlockFits host b block data ∧
      (∀ off len, block.header b.dict data = some (off, len) →
        (block.contents ++ data).length < off + len → expected data.length = data.length) ∧
      ∀ off len, EndsIn block b.dict data off len → Fine off len)
    (hexpected : data.length ≤ 64 → expected data.length = data.length)
    (hfinish : ∀ cc block', Completed host b block data cc block' →
      (Fine block'.dataOffset block'.dataLength ∧ ∃ r, finish b block' = .ok r) ∨
      (¬ Fine block'.dataOffset block'.dataLength ∧ ∃ e, finish b block' = .error e)) :
    Rounds host data P (consumeThen host expected finish b block data) := by
  have hspec := consumeBlock_spec h hd hp
  rw [consumeThen]
  simp only [bind, Except.bind]
  cases hc : consumeBlock host.memory b.dict block data with
  | error e =>
    rw [hc] at hspec
    cases hspec with
    | fault e hfits => exact .fault e fun hp => hfits (hP.mp hp).1
  | ok r =>
    rw [hc] at hspec
    cases hspec with
    | reject block' hfits hheader =>
      refine .reject block' b (hP.mpr ⟨hfits, fun off len ho _ => ?_, fun off len ho => ?_⟩)
      · rw [hheader] at ho
        cases ho
      · rw [EndsIn, hheader] at ho
        cases ho.1
    | waits block' hfits howner hready hshort hsmall =>
      have hlen : expected data.length = data.length ∨
          ∃ p, block.header b.dict data = some p := by
        cases hheader : block.header b.dict data with
        | none => exact .inl (hexpected (hsmall hheader))
        | some p => exact .inr ⟨p, rfl⟩
      simp only [hready.incomplete, if_true]
      by_cases heq : expected data.length = data.length
      · rw [require_of heq.symm]
        refine .waits block' b (hP.mpr ⟨hfits, fun _ _ _ _ => heq, fun off len ho => ?_⟩) hready
        exact absurd ho.2 (Nat.not_le.mpr (hshort off len ho.1))
      · obtain ⟨⟨off, len⟩, ho⟩ := hlen.resolve_left heq
        rw [require, if_neg fun hx => heq hx.symm]
        exact .fault _ fun hp => heq ((hP.mp hp).2.1 off len ho (hshort off len ho))
    | completes cc block' hfits hdone =>
      have hne : ¬ (block'.complete = false) := by simp [hdone.complete]
      simp only [if_neg hne]
      rcases hfinish cc block' hdone with ⟨hfine, r, hr⟩ | ⟨hfine, e, he⟩
      · have hends : P := by
          refine hP.mpr ⟨hfits, fun off len ho hlt => ?_, fun off len ho => ?_⟩
          · rw [hdone.header, Option.some.injEq, Prod.mk.injEq] at ho
            have := hdone.end_le
            omega
          · have heq := ho.1
            rw [hdone.header, Option.some.injEq, Prod.mk.injEq] at heq
            rw [← heq.1, ← heq.2]
            exact hfine
        rw [hr]
        cases r with
        | none => exact .reject block' b hends
        | some b' =>
          exact .completes cc block' b' hends hdone.complete (lastBlock_ok hdone.parsed)
            hdone.used_pos hdone.used_le
      · rw [he]
        exact .fault e fun hp => hfine ((hP.mp hp).2.2 _ _ hdone.ends)

/-! ## Each processor -/

theorem finishPreviousHop_ok (index : ℕ) (block' : RecvBlock) :
    ∃ r, finishPreviousHop host index b block' = .ok r := by
  unfold finishPreviousHop
  dsimp only
  split_ifs <;> exact ⟨_, rfl⟩

theorem finishEcos_ok (block' : RecvBlock) : ∃ r, finishEcos b block' = .ok r := by
  unfold finishEcos
  dsimp only
  split
  · split_ifs
    · exact ⟨_, rfl⟩
    · split <;> exact ⟨_, rfl⟩
    · exact ⟨_, rfl⟩
  · exact ⟨_, rfl⟩

/-- The block is of the type that its first byte says. -/
theorem finishMetadata_ok (h : Receiving host b block data) (ho : block.owner = .metadata) {cc : ℕ}
    {block' : RecvBlock} (hdone : Completed host b block data cc block') :
    ∃ r, finishMetadata b block' = .ok r := by
  have howner : block'.owner = .metadata := hdone.owner.trans ho
  have hpos := hdone.offset_pos
  have htype : block'.type = 8 := by
    obtain ⟨rest, hall⟩ : ∃ rest, block.contents ++ data = 8 :: rest := by
      have hhead := h.metadata ho
      cases hall : block.contents ++ data with
      | nil => simp [hall] at hhead
      | cons v rest =>
        rw [hall, List.head?_cons, Option.some.injEq] at hhead
        exact ⟨rest, by rw [hhead]⟩
    have hcontents := hdone.contents
    rw [hall, show block'.dataOffset + block'.dataLength =
      (block'.dataOffset + block'.dataLength - 1) + 1 by omega, List.take_succ_cons] at hcontents
    rw [RecvBlock.type, howner, hcontents, if_neg (by decide)]
    rfl
  rw [finishMetadata, require_of howner, require_of htype, require_of hdone.complete,
    require_of hpos]
  exact ⟨_, rfl⟩

theorem finishCteb_spec {cc : ℕ} {block' : RecvBlock}
    (hdone : Completed host b block data cc block') :
    (CreatorFits b block data block'.dataOffset block'.dataLength ∧
        ∃ r, finishCteb b block' = .ok r) ∨
      (¬ CreatorFits b block data block'.dataOffset block'.dataLength ∧
        ∃ e, finishCteb b block' = .error e) := by
  unfold CreatorFits
  rw [← hdone.data_eq]
  unfold finishCteb
  by_cases hvalid : b.ctebValid = true
  · rw [if_pos hvalid]
    exact .inl ⟨fun hv => by simp [hvalid] at hv, _, rfl⟩
  · rw [if_neg hvalid]
    unfold ctebCreator
    dsimp only
    cases hread : readSdnv (block'.data.take (u32 block'.dataLength)) with
    | some p => exact .inl ⟨fun _ hnone => (nomatch hnone), _, rfl⟩
    | none =>
      dsimp only
      split_ifs with hlt
      · exact .inl ⟨fun _ _ => hlt, _, rfl⟩
      · exact .inr ⟨fun hfine => hlt (hfine (by simpa using hvalid) rfl), _, rfl⟩

theorem finishImcState_spec {cc : ℕ} {block' : RecvBlock}
    (hdone : Completed host b block data cc block') :
    (RegionsLast block data block'.dataOffset block'.dataLength ∧
        ∃ r, finishImcState b block' = .ok r) ∨
      (¬ RegionsLast block data block'.dataOffset block'.dataLength ∧
        ∃ e, finishImcState b block' = .error e) := by
  unfold RegionsLast
  rw [← hdone.data_eq]
  unfold finishImcState
  cases hread : readImcState block'.data with
  | none => exact .inl ⟨fun _ _ _ hsome => (nomatch hsome), _, rfl⟩
  | some p =>
    obtain ⟨nodes, regions, rest⟩ := p
    dsimp only
    by_cases hrest : rest = []
    · rw [require_of hrest]
      refine .inl ⟨fun nodes' regions' rest' hsome => ?_, _, rfl⟩
      cases hsome
      exact hrest
    · rw [require, if_neg hrest]
      exact .inr ⟨fun hfine => hrest (hfine nodes regions rest rfl), _, rfl⟩

theorem parseBody_ok (fields : PrimaryFields) (buf : List UInt8) :
    ∃ r, parseBody [] fields buf = .ok r := by
  unfold parseBody
  split
  · dsimp only
    split_ifs
    · exact ⟨_, rfl⟩
    · exact ⟨_, rfl⟩
    · rw [require_of rfl]
      exact ⟨_, rfl⟩
    · exact ⟨_, rfl⟩
  · exact ⟨_, rfl⟩

/-- References in a primary block shift what is read as its length. -/
theorem parsePrimary_spec {dict : List UInt8} (fields : PrimaryFields) {block' : RecvBlock}
    (hparsed : Parsed dict block'.contents block'.dataOffset block'.dataLength)
    (hlen : block'.contents.length = block'.dataOffset + block'.dataLength)
    (hversion : dict = [] ∨ block'.contents.head? = some 0) :
    let fine := block'.contents.head? = some 6 → ∀ flags n,
      readSdnv (block'.contents.drop 1) = some (flags, n) → flags.testBit 6 = false
    (fine ∧ ∃ r, parsePrimary dict fields block' = .ok r) ∨
      (¬ fine ∧ ∃ e, parsePrimary dict fields block' = .error e) := by
  dsimp only
  obtain ⟨p, hp, hoff, hdl⟩ := hparsed
  obtain ⟨n, o, k, hflags, hrefs, hblockLen, hend⟩ := preamble_eq_some hp
  have hbound := preamble_bound hp
  rw [hoff] at hend
  obtain ⟨version, buf, hcontents⟩ : ∃ version buf, block'.contents = version :: buf := by
    cases hc : block'.contents with
    | nil =>
      rw [hc, List.length_nil] at hlen
      omega
    | cons version buf => exact ⟨version, buf, rfl⟩
  have hsplit : block'.contents =
      block'.contents.take block'.dataOffset ++ block'.contents.drop block'.dataOffset :=
    (List.take_append_drop _ _).symm
  -- a value within the preamble is read from the contents as well
  have hread : ∀ {i v m}, i ≤ block'.dataOffset →
      readSdnv ((block'.contents.take block'.dataOffset).drop i) = some (v, m) →
        readSdnv (block'.contents.drop i) = some (v, m) := by
    intro i v m hi hv
    rw [hsplit, List.drop_append_of_le_length (by rw [List.length_take]; omega)]
    exact readSdnv_append _ hv
  have hn := (readSdnv_bound hflags).1
  have hk := (readSdnv_bound hblockLen).1
  have ho := eidRefs_le hrefs
  have hflags' := hread (by omega) hflags
  have hbuf : block'.contents.drop 1 = buf := by rw [hcontents]; rfl
  rw [hbuf] at hflags'
  have hbufLen : buf.length + 1 = block'.dataOffset + block'.dataLength := by
    rw [← hlen, hcontents, List.length_cons]
  rw [hbuf, hcontents, List.head?_cons, parsePrimary, hcontents]
  dsimp only
  by_cases hsix : version = 6
  · have hdict : dict = [] := by
      refine hversion.resolve_right fun h0 => ?_
      rw [hcontents, List.head?_cons, hsix] at h0
      cases h0
    rw [if_neg (by simpa using hsix), hdict]
    have hfine : ((some version = some (6 : UInt8)) → ∀ flags n, readSdnv buf = some (flags, n) →
        flags.testBit 6 = false) ↔ p.flags.testBit 6 = false := by
      refine ⟨fun h => h (congrArg some hsix) _ _ hflags', fun h _ flags n hf => ?_⟩
      rw [hflags', Option.some.injEq, Prod.mk.injEq] at hf
      rw [← hf.1]
      exact h
    rw [hfine]
    by_cases hbit : p.flags.testBit 6 = true
    · -- the number of references is read as the length
      refine .inr ⟨by simp [hbit], ?_⟩
      unfold eidRefs at hrefs
      rw [if_pos hbit] at hrefs
      obtain ⟨⟨count, m⟩, hcount, hloop⟩ := Option.bind_eq_some_iff.mp hrefs
      have hm := eidLoop_le _ hloop
      have hcount' := hread (by omega) hcount
      rw [hcontents, Nat.add_comm, List.drop_succ_cons] at hcount'
      have hreads : readSdnvs 2 buf = some ([p.flags, count], (buf.drop n).drop m) := by
        rw [readSdnvs, hflags', Option.bind_some]
        dsimp only
        rw [readSdnvs, hcount', Option.bind_some]
        rfl
      rw [hreads]
      dsimp only
      rw [require, if_neg]
      · exact ⟨_, rfl⟩
      · rw [List.length_drop, List.length_drop]
        omega
    · refine .inl ⟨by simpa using hbit, ?_⟩
      unfold eidRefs at hrefs
      rw [if_neg hbit, Option.some.injEq, Prod.mk.injEq] at hrefs
      rw [← hrefs.2] at hblockLen hend
      have hlength' := hread (by omega) hblockLen
      rw [hcontents, Nat.add_comm, List.drop_succ_cons] at hlength'
      have hreads : readSdnvs 2 buf = some ([p.flags, p.blockLen], (buf.drop n).drop k) := by
        rw [readSdnvs, hflags', Option.bind_some]
        dsimp only
        rw [readSdnvs, hlength', Option.bind_some]
        rfl
      rw [hreads]
      dsimp only
      rw [require_of]
      · exact parseBody_ok _ _
      · rw [List.length_drop, List.length_drop]
        omega
  · rw [if_pos (by simpa using hsix)]
    exact .inl ⟨fun h => absurd (Option.some.inj h) hsix, _, rfl⟩

theorem Completed.length_eq {cc : ℕ} {block' : RecvBlock}
    (h : Completed host b block data cc block') :
    block'.contents.length = block'.dataOffset + block'.dataLength := by
  rw [h.contents, List.length_take]
  exact min_eq_left h.end_le

theorem Completed.head? {cc : ℕ} {block' : RecvBlock} (h : Completed host b block data cc block') :
    block'.contents.head? = (block.contents ++ data).head? := by
  have hpos := h.offset_pos
  rw [h.contents, List.head?_take, if_neg (by omega)]

theorem consumePrimary_rounds (h : Receiving host b block data) (hd : data ≠ [])
    (ho : block.owner = .primary) :
    Rounds host data (OwnerOk host b block data) (consumePrimaryBlock host b block data) := by
  have hp : block.owner ≠ .payload := by rw [ho]; decide
  have hspec := consumeBlock_spec h hd hp
  have hok : BlockFits host b block data →
      (∀ off len, block.header b.dict data = some (off, len) →
        (block.contents ++ data).length < off + len → data.length < 2 ^ 31) →
      (∀ off len, EndsIn block b.dict data off len → NoReferences block data) → OwnerOk host b block data := fun hfits hchunk hrefs =>
    ⟨hfits.grows, fun _ => hfits, fun hc => absurd hc hp, fun _ => hchunk, fun _ => hrefs,
      fun hc => (nomatch ho.symm.trans hc), fun hc => (nomatch ho.symm.trans hc)⟩
  rw [consumePrimaryBlock, consumePrimary, require_of h.incomplete]
  simp only [bind, Except.bind]
  cases hc : consumeBlock host.memory b.dict block data with
  | error e =>
    rw [hc] at hspec
    cases hspec with
    | fault e hfits => exact .fault e fun hp' => hfits (hp'.blockFits hp)
  | ok r =>
    rw [hc] at hspec
    cases hspec with
    | reject block' hfits hheader =>
      refine .reject block' _ (hok hfits (fun off len hol _ => ?_) fun off len hol => ?_)
      · rw [hheader] at hol
        cases hol
      · rw [EndsIn, hheader] at hol
        cases hol.1
    | waits block' hfits howner hready hshort hsmall =>
      simp only [hready.incomplete, if_true]
      have hnoEnd : ∀ off len, EndsIn block b.dict data off len → False := fun off len hol =>
        absurd hol.2 (Nat.not_le.mpr (hshort off len hol.1))
      by_cases hlt : data.length < 2 ^ 31
      · rw [require_of (i32_of_lt hlt).symm]
        exact .waits block' _ (hok hfits (fun _ _ _ _ => hlt) fun off len hol =>
          (hnoEnd off len hol).elim) hready
      · have hheader : ∃ p, block.header b.dict data = some p := by
          cases hh : block.header b.dict data with
          | none =>
            have := hsmall hh
            omega
          | some p => exact ⟨p, rfl⟩
        obtain ⟨⟨off, len⟩, hol⟩ := hheader
        rw [require, if_neg]
        · exact .fault _ fun hp' => hlt (hp'.chunk (.inl ho) off len hol (hshort off len hol))
        · have hcast := i32_lt data.length
          omega
    | completes cc block' hfits hdone =>
      have hne : ¬ (block'.complete = false) := by simp [hdone.complete]
      have hfull : block'.fullLength = block'.contents.length := by
        rw [hdone.length_eq]
        exact u64_of_lt hdone.end_lt
      simp only [if_neg hne, require_of hfull]
      have hversion : b.dict = [] ∨ block'.contents.head? = some 0 := by
        rw [hdone.head?]
        exact h.version ho
      have hdrop : ∀ flags n, readSdnv (block'.contents.drop 1) = some (flags, n) →
          readSdnv ((block.contents ++ data).drop 1) = some (flags, n) := by
        intro flags n hf
        have hsplit := List.take_append_drop (block'.dataOffset + block'.dataLength)
          (block.contents ++ data)
        rw [← hdone.contents] at hsplit
        have hpos := hdone.offset_pos
        have hlength := hdone.length_eq
        rw [← hsplit, List.drop_append_of_le_length (by omega)]
        exact readSdnv_append _ hf
      rcases parsePrimary_spec b.fields hdone.parsed hdone.length_eq hversion with
        ⟨hfine, r, hr⟩ | ⟨hfine, e, he⟩
      · have hgood : OwnerOk host b block data := by
          refine hok hfits (fun off len hol hlt => ?_) fun off len _ hsix flags n hf => ?_
          · rw [hdone.header, Option.some.injEq, Prod.mk.injEq] at hol
            have := hdone.end_le
            omega
          · obtain ⟨flags', m, hflags'⟩ := hdone.parsed.flags
            have heq := (hdrop _ _ hflags').symm.trans hf
            rw [Option.some.injEq, Prod.mk.injEq] at heq
            rw [← heq.1]
            exact hfine (by rw [hdone.head?]; exact hsix) _ _ hflags'
        rw [hr]
        cases r with
        | none => exact .reject block' _ hgood
        | some r =>
          exact .completes cc block' _ hgood hdone.complete (lastBlock_ok hdone.parsed)
            hdone.used_pos hdone.used_le
      · rw [he]
        refine .fault e fun hp' => hfine fun hsix flags n hf => ?_
        exact hp'.references ho _ _ hdone.ends (by rw [← hdone.head?]; exact hsix) flags n
          (hdrop flags n hf)

/-- Processors that only ask for a block that fits. -/
theorem ownerOk_iff_blockFits
    (ho : block.owner ∈
      [Processor.previousHop, .metadata, .extendedClassOfService, .unknown]) :
    OwnerOk host b block data ↔ BlockFits host b block data := by
  have hne : block.owner ≠ .primary ∧ block.owner ≠ .payload ∧
      block.owner ≠ .custodyTransferEnhancement ∧ block.owner ≠ .imcState := by
    simp only [List.mem_cons, List.not_mem_nil, or_false] at ho
    rcases ho with ho | ho | ho | ho <;> rw [ho] <;> decide
  refine ⟨fun h => h.blockFits hne.2.1, fun h => ⟨h.grows, fun _ => h, fun hc => absurd hc hne.2.1,
    fun hc => ?_, fun hc => absurd hc hne.1, fun hc => absurd hc hne.2.2.1,
    fun hc => absurd hc hne.2.2.2⟩⟩
  exact hc.elim (fun hc => absurd hc hne.1) fun hc => absurd hc hne.2.2.1

theorem consumeUnknown_rounds (h : Receiving host b block data) (hd : data ≠ [])
    (ho : block.owner = .unknown) :
    Rounds host data (OwnerOk host b block data) (consumeUnknown host b block data) := by
  have hp : block.owner ≠ .payload := by rw [ho]; decide
  have hspec := consumeBlock_spec h hd hp
  have hok : BlockFits host b block data → OwnerOk host b block data :=
    (ownerOk_iff_blockFits (by simp [ho])).mpr
  rw [consumeUnknown]
  simp only [bind, Except.bind]
  cases hc : consumeBlock host.memory b.dict block data with
  | error e =>
    rw [hc] at hspec
    cases hspec with
    | fault e hfits => exact .fault e fun hp' => hfits (hp'.blockFits hp)
  | ok r =>
    rw [hc] at hspec
    cases hspec with
    | reject block' hfits hheader => exact .reject block' b (hok hfits)
    | waits block' hfits howner hready hshort hsmall => exact .waits block' b (hok hfits) hready
    | completes cc block' hfits hdone =>
      exact .completes cc block' b (hok hfits) hdone.complete (lastBlock_ok hdone.parsed)
        hdone.used_pos hdone.used_le

/-! ## The payload -/

/-- A payload whose preamble is known: it is complete, or everything was used and bytes are
missing. -/
theorem payloadData_spec {s : RecvBlock} (hs : Started host s) (ho : s.owner = .payload)
    (hlen : s.contents.length = s.dataOffset)
    (hparsed : Parsed b.dict s.contents s.dataOffset s.dataLength)
    (hmiss : b.nodata = false → s.dataLength ≠ 0 → b.payload.length < s.dataLength)
    (rest : List UInt8) :
    ∃ copied s' b', payloadData b s rest = .ok (copied, s', b') ∧ copied ≤ rest.length ∧
      s'.contents = s.contents ∧
      ((s'.complete = true ∧ (b.nodata = false → s.dataLength ≠ 0 → rest ≠ [] → 0 < copied)) ∨
        (copied = rest.length ∧ Receiving host b' s' [])) := by
  have hne := hs.offset_ne
  have hready : ∀ b' : RecvBundle, b'.dict = b.dict → b'.nodata = false → s.dataLength ≠ 0 →
      b'.payload.length < s.dataLength → Receiving host b' s [] := by
    intro b' hdict hno hzero hlt
    refine ⟨hs.incomplete, hs.length_le, hs.bufLen_le, fun h0 => absurd h0 hne,
      fun h0 => absurd h0 hne, fun h0 => absurd h0 hne, fun _ => ?_, fun _ => hs, fun _ => hzero,
      fun _ _ => ⟨hlen, hno, hlt⟩, fun hc => (nomatch ho.symm.trans hc),
      fun hc => (nomatch ho.symm.trans hc)⟩
    rw [hdict]
    exact hparsed
  unfold payloadData
  rw [if_neg hne]
  by_cases hdone : (b.nodata || decide (s.dataLength = 0)) = true
  · rw [if_pos hdone]
    refine ⟨0, _, b, rfl, Nat.zero_le _, rfl, .inl ⟨rfl, fun hno hzero => ?_⟩⟩
    simp [hno, hzero] at hdone
  · rw [if_neg hdone]
    simp only [Bool.or_eq_true, decide_eq_true_eq, not_or, Bool.not_eq_true] at hdone
    have hlt := hmiss hdone.1 hdone.2
    by_cases hrest : rest = []
    · rw [if_pos hrest]
      exact ⟨0, s, b, rfl, Nat.zero_le _, rfl, .inr ⟨by rw [hrest]; rfl,
        hready b rfl hdone.1 hdone.2 hlt⟩⟩
    · rw [if_neg hrest, require_of hlen]
      simp only [bind, Except.bind, require_of hlt]
      have hpos := List.length_pos_iff.mpr hrest
      refine ⟨_, _, _, rfl, min_le_right _ _, rfl, ?_⟩
      by_cases hend : s.dataLength - b.payload.length ≤ rest.length
      · exact .inl ⟨decide_eq_true hend, fun _ _ _ => by omega⟩
      · refine .inr ⟨by omega, ?_⟩
        have hsame : ({ s with
            complete := decide (s.dataLength - b.payload.length ≤ rest.length) } : RecvBlock) = s := by
          rw [decide_eq_false hend, ← hs.incomplete]
        rw [hsame]
        refine hready _ rfl hdone.1 hdone.2 ?_
        simp only [writePayload, List.length_append, List.length_take]
        omega

theorem consumePayload_rounds (h : Receiving host b block data) (hd : data ≠ [])
    (ho : block.owner = .payload) :
    Rounds host data (OwnerOk host b block data) (consumePayload host b block data) := by
  have hdpos := List.length_pos_iff.mpr hd
  have hok : (block.dataOffset = 0 → Grows host block) →
      (block.dataOffset = 0 →
        b.payload = [] ∨ (block.window < data.length ∧ block.header b.dict data = none)) →
      OwnerOk host b block data := fun hgrow hone =>
    ⟨hgrow, fun hc => absurd ho hc, fun _ => hone,
      fun hc => hc.elim (fun hc => (nomatch ho.symm.trans hc)) fun hc => (nomatch ho.symm.trans hc),
      fun hc => (nomatch ho.symm.trans hc), fun hc => (nomatch ho.symm.trans hc),
      fun hc => (nomatch ho.symm.trans hc)⟩
  rw [consumePayload, payloadStart]
  by_cases h0 : block.dataOffset = 0
  · rw [if_pos h0]
    by_cases hgrow : Grows host block
    · rw [consumePreamble_eq h h0 hgrow]
      have hheader := header_of_zero h0 b.dict data
      cases hpre : preamble b.dict (block.opened data).contents with
      | none =>
        rw [hpre, Option.map_none] at hheader
        simp only [bind, Except.bind]
        by_cases hw : data.length ≤ block.window
        · simp only [if_pos hw]
          by_cases hempty : b.payload = []
          · have hopen : payloadData b (block.opened data) [] = .ok (0, block.opened data, b) := by
              unfold payloadData
              rw [if_pos (show (block.opened data).dataOffset = 0 from h0)]
              rfl
            simp only [require_of (by rw [hempty]; rfl : b.payload.length = 0), pure, Except.pure,
              List.drop_length, hopen]
            exact .waits _ b (hok (fun _ => hgrow) fun _ => .inl hempty) (h.opened h0 hgrow hw hpre)
          · rw [require, if_neg (by simpa using hempty)]
            refine .fault _ fun hp => ?_
            rcases hp.onePayload ho h0 with he | ⟨hlt, -⟩
            · exact hempty he
            · omega
        · simp only [if_neg hw]
          exact .reject _ b (hok (fun _ => hgrow) fun _ => .inr ⟨by omega, hheader⟩)
      | some p =>
        rw [hpre, Option.map_some] at hheader
        have hf := h.found h0 hgrow hpre
        have hgt := hf.offset_gt
        have hle := hf.offset_le
        rw [List.length_append] at hle
        simp only [bind, Except.bind]
        by_cases hempty : b.payload = []
        · have hslen : ((block.opened data).start p).contents.length = p.offset := by
            rw [hf.contents, List.length_take]
            exact min_eq_left hf.offset_le
          obtain ⟨copied, s', b', heq, hcopied, hcontents, hcases⟩ := payloadData_spec
            hf.started ho hslen hf.parsed (fun _ hne => by
              rw [hempty]
              exact Nat.pos_of_ne_zero hne) (data.drop (p.offset - block.contents.length))
          rw [List.length_drop] at hcopied hcases
          simp only [require_of (by rw [hempty]; rfl : b.payload.length = 0), pure, Except.pure, heq]
          have hgood := hok (fun _ => hgrow) fun _ => .inl hempty
          rcases hcases with ⟨hcomplete, -⟩ | ⟨hall, hready⟩
          · refine .completes _ s' b' hgood hcomplete ?_ (by omega) (by omega)
            have hparsed := hf.parsed
            rw [← hcontents] at hparsed
            exact lastBlock_ok hparsed
          · have hused : p.offset - block.contents.length + copied = data.length := by omega
            rw [hused]
            exact .waits s' b' hgood hready
        · rw [require, if_neg (by simpa using hempty)]
          refine .fault _ fun hp => ?_
          rcases hp.onePayload ho h0 with he | ⟨-, hnone⟩
          · exact hempty he
          · rw [hheader] at hnone
            cases hnone
    · obtain ⟨e, he⟩ := consumePreamble_fault h h0 hgrow
      rw [he]
      exact .fault e fun hp => hgrow (hp.grows h0)
  · rw [if_neg h0]
    obtain ⟨hlen, hno, hlt⟩ := h.payload ho h0
    obtain ⟨copied, s', b', heq, hcopied, hcontents, hcases⟩ := payloadData_spec (h.started h0) ho
      hlen (h.parsed h0) (fun _ _ => hlt) data
    simp only [bind, Except.bind, List.drop_zero, heq, pure, Except.pure, Nat.zero_add]
    have hgood := hok (fun hz => absurd hz h0) fun hz => absurd hz h0
    rcases hcases with ⟨hcomplete, hpos⟩ | ⟨hall, hready⟩
    · refine .completes copied s' b' hgood hcomplete ?_ (hpos hno (h.missing h0) hd) hcopied
      have hparsed := h.parsed h0
      rw [← hcontents] at hparsed
      exact lastBlock_ok hparsed
    · rw [hall]
      exact .waits s' b' hgood hready

/-- A processor whose end never aborts. -/
theorem consumeThen_rounds_plain
    {finish : RecvBundle → RecvBlock → Except Fault (Option RecvBundle)}
    (h : Receiving host b block data) (hd : data ≠ [])
    (ho : block.owner ∈ [Processor.previousHop, .metadata, .extendedClassOfService, .unknown])
    (hfinish : ∀ cc block', Completed host b block data cc block' → ∃ r, finish b block' = .ok r) :
    Rounds host data (OwnerOk host b block data) (consumeThen host Int.ofNat finish b block data) := by
  have hp : block.owner ≠ .payload := by
    intro hc
    simp [hc] at ho
  refine consumeThen_rounds (fun _ _ => True) h hd hp ?_ (fun _ => rfl)
    fun cc block' hdone => .inl ⟨trivial, hfinish cc block' hdone⟩
  rw [ownerOk_iff_blockFits ho]
  exact ⟨fun hfits => ⟨hfits, fun _ _ _ _ => rfl, fun _ _ _ => trivial⟩, fun hfits => hfits.1⟩

/-- `owner()->consume` on a block that is not complete aborts exactly if its condition fails. -/
theorem consumeOwner_rounds (index : ℕ) (h : Receiving host b block data) (hd : data ≠ []) :
    Rounds host data (OwnerOk host b block data) (consumeOwner host index b block data) := by
  unfold consumeOwner
  cases ho : block.owner with
  | primary => exact consumePrimary_rounds h hd ho
  | payload => exact consumePayload_rounds h hd ho
  | previousHop =>
    exact consumeThen_rounds_plain h hd (by simp [ho]) fun _ block' _ =>
      finishPreviousHop_ok index block'
  | metadata =>
    exact consumeThen_rounds_plain h hd (by simp [ho]) fun _ _ hdone => finishMetadata_ok h ho hdone
  | custodyTransferEnhancement =>
    refine consumeThen_rounds (CreatorFits b block data) h hd (by rw [ho]; decide) ?_
      (fun hle => i32_of_lt (by omega))
      fun _ _ hdone => finishCteb_spec hdone
    refine ⟨fun hp => ⟨hp.blockFits (by rw [ho]; decide), fun off len hol hlt =>
      i32_of_lt (hp.chunk (.inr ho) off len hol hlt), fun off len hol => hp.creator ho off len hol⟩,
      fun ⟨hfits, hchunk, hfine⟩ => ⟨hfits.grows, fun _ => hfits, fun hc => (nomatch ho.symm.trans hc),
        fun _ off len hol hlt => ?_, fun hc => (nomatch ho.symm.trans hc),
        fun _ off len hol => hfine off len hol, fun hc => (nomatch ho.symm.trans hc)⟩⟩
    have hcast := hchunk off len hol hlt
    have hbound := i32_lt data.length
    omega
  | extendedClassOfService =>
    exact consumeThen_rounds_plain h hd (by simp [ho]) fun _ block' _ => finishEcos_ok block'
  | imcState =>
    refine consumeThen_rounds (RegionsLast block data) h hd (by rw [ho]; decide) ?_ (fun _ => rfl)
      fun _ _ hdone => finishImcState_spec hdone
    exact ⟨fun hp => ⟨hp.blockFits (by rw [ho]; decide), fun _ _ _ _ => rfl, fun off len hol =>
      hp.regions ho off len hol⟩,
      fun ⟨hfits, _, hfine⟩ => ⟨hfits.grows, fun _ => hfits, fun hc => (nomatch ho.symm.trans hc),
        fun hc => hc.elim (fun hc => (nomatch ho.symm.trans hc)) fun hc => (nomatch ho.symm.trans hc),
        fun hc => (nomatch ho.symm.trans hc), fun hc => (nomatch ho.symm.trans hc),
        fun _ off len hol => hfine off len hol⟩⟩
  | unknown => exact consumeUnknown_rounds h hd ho

end

/-! ## Rounds -/

/-- The condition on a round, in terms of the bundle and the bytes before it. -/
def RoundOk (host : Host) (b : RecvBundle) (data : List UInt8) : Prop :=
  OwnerOk host b (b.current (data.headD 0)).2 data

/-- Between rounds the last block is complete, or more bytes are for it. -/
structure RecvInv (host : Host) (b : RecvBundle) : Prop where
  new : b.blocks = [] → b.dict = []
  last : ∀ block, b.blocks.getLast? = some block → block.complete = true ∨ Receiving host b block []

theorem findProcessor_primary {type : UInt8} (h : findProcessor type = .primary) : type = 0 := by
  unfold findProcessor at h
  split at h <;> first | rfl | cases h

theorem findProcessor_metadata {type : UInt8} (h : findProcessor type = .metadata) : type = 8 := by
  unfold findProcessor at h
  split at h <;> first | rfl | cases h

section
variable {host : Host} {b : RecvBundle} {data : List UInt8}

theorem ready_new (owner : Processor) (hversion : owner = .primary → b.dict = [] ∨ data.head? = some 0)
    (hmetadata : owner = .metadata → data.head? = some 8) :
    Receiving host b { owner := owner } data where
  incomplete := rfl
  length_le := Nat.zero_le _
  bufLen_le := host.static_le
  near _ := le_rfl
  eids _ := rfl
  pending _ := rfl
  parsed hne := absurd rfl hne
  started hne := absurd rfl hne
  missing hne := absurd rfl hne
  payload _ hne := absurd rfl hne
  version := hversion
  metadata := hmetadata

theorem RecvInv.current (h : RecvInv host b) (hd : data ≠ []) :
    Receiving host b (b.current (data.headD 0)).2 data := by
  unfold RecvBundle.current
  cases hlast : b.blocks.getLast? with
  | none =>
    have hdict := h.new (List.getLast?_eq_none_iff.mp hlast)
    exact ready_new .primary (fun _ => .inl hdict) fun ho => nomatch ho
  | some block =>
    dsimp only
    split_ifs with hcomplete
    · obtain ⟨v, rest, rfl⟩ := List.exists_cons_of_ne_nil hd
      exact ready_new _ (fun ho => .inr (congrArg some (findProcessor_primary ho)))
        fun ho => congrArg some (findProcessor_metadata ho)
    · exact ((h.last block hlast).resolve_left hcomplete).more data

theorem Receiving.blocks {block : RecvBlock} (h : Receiving host b block data) (blocks : List RecvBlock) :
    Receiving host { b with blocks := blocks } block data :=
  ⟨h.1, h.2, h.3, h.4, h.5, h.6, h.7, h.8, h.9, h.10, h.11, h.12⟩

/-- A round aborts, or it uses bytes and keeps the invariant. -/
theorem consumeRound_spec (h : RecvInv host b) (hd : data ≠ []) :
    (¬ RoundOk host b data ∧ ∃ e, consumeRound host b data = .error e) ∨
      (RoundOk host b data ∧ ∃ cc block b', consumeRound host b data = .ok (cc, block, b') ∧
        ∀ n, cc = some n → 0 < n ∧ n ≤ data.length ∧ RecvInv host b' ∧
          ∃ last, roundEnds block (data.drop n) = .ok last) := by
  have hrounds := consumeOwner_rounds (b.current (data.headD 0)).1.length (h.current hd) hd
  unfold consumeRound
  simp only [bind, Except.bind]
  -- the block of the round is the last one afterwards
  have hinv : ∀ (block : RecvBlock) (b' : RecvBundle),
      block.complete = true ∨ Receiving host b' block [] →
        RecvInv host { b' with blocks := (b.current (data.headD 0)).1 ++ [block] } := by
    refine fun block b' hblock => ⟨fun hnil => by simp at hnil, fun last hlast => ?_⟩
    rw [List.getLast?_append, List.getLast?_singleton, Option.some_or, Option.some.injEq] at hlast
    rw [← hlast]
    exact hblock.imp_right fun hready => hready.blocks _
  cases hc : consumeOwner host (b.current (data.headD 0)).1.length b (b.current (data.headD 0)).2
      data with
  | error e =>
    rw [hc] at hrounds
    cases hrounds with
    | fault e hbad => exact .inl ⟨hbad, e, rfl⟩
  | ok r =>
    rw [hc] at hrounds
    cases hrounds with
    | reject block b' hgood => exact .inr ⟨hgood, none, block, _, rfl, fun n hn => nomatch hn⟩
    | waits block b' hgood hready =>
      refine .inr ⟨hgood, some data.length, block, _, rfl, fun n hn => ?_⟩
      cases hn
      refine ⟨List.length_pos_iff.mpr hd, le_rfl, hinv block b' (.inr hready), false, ?_⟩
      rw [roundEnds, hready.incomplete, List.drop_length]
      rfl
    | completes cc block b' hgood hcomplete hlast hpos hle =>
      refine .inr ⟨hgood, some cc, block, _, rfl, fun n hn => ?_⟩
      cases hn
      refine ⟨hpos, hle, hinv block b' (.inl hcomplete), ?_⟩
      rw [roundEnds, if_pos hcomplete]
      exact hlast

end

/-! ## The loop -/

/-- The bundles and the bytes that rounds start with. -/
def roundsOf (host : Host) : ℕ → RecvBundle → List UInt8 → List (RecvBundle × List UInt8)
  | 0, _, _ => []
  | fuel + 1, b, data =>
    if data = [] then []
    else (b, data) ::
      match consumeRound host b data with
      | .ok (some cc, block, b') =>
        match roundEnds block (data.drop cc) with
        | .ok false => roundsOf host fuel b' (data.drop cc)
        | _ => []
      | _ => []

/-- Those of all chunks. -/
def roundsOfChunks (host : Host) : RecvBundle → List (List UInt8) → List (RecvBundle × List UInt8)
  | _, [] => []
  | b, chunk :: chunks =>
    roundsOf host (chunk.length + 1) b chunk ++
      match consume host b chunk with
      | .ok (some _, false, b') => roundsOfChunks host b' chunks
      | _ => []

/-- Of each chunk at most its bytes are used. -/
def Counted (rs : List (Option ℕ)) (chunks : List (List UInt8)) : Prop :=
  ∀ (i n : ℕ), rs[i]? = some (some n) → ∃ chunk, chunks[i]? = some chunk ∧ n ≤ chunk.length

section
variable {host : Host}

/-- The loop aborts exactly if a round does, and it ends. -/
theorem consumeLoop_spec (fuel : ℕ) : ∀ {b : RecvBundle} {data : List UInt8} (consumed : ℕ),
    RecvInv host b → data.length < fuel →
      ((∃ e, consumeLoop host fuel b data consumed = .error e) ∧
        ¬ ∀ v ∈ roundsOf host fuel b data, RoundOk host v.1 v.2) ∨
      ((∃ r last b', consumeLoop host fuel b data consumed = .ok (r, last, b') ∧
        ∀ n, r = some n → n ≤ consumed + data.length ∧ (last = false → RecvInv host b')) ∧
        ∀ v ∈ roundsOf host fuel b data, RoundOk host v.1 v.2) := by
  induction fuel with
  | zero => exact fun _ _ hlt => absurd hlt (Nat.not_lt_zero _)
  | succ fuel ih =>
    intro b data consumed h hlt
    rw [consumeLoop, roundsOf]
    by_cases hd : data = []
    · rw [if_pos hd, if_pos hd]
      refine .inr ⟨⟨_, _, _, rfl, fun n hn => ?_⟩, by simp⟩
      cases hn
      exact ⟨Nat.le_add_right _ _, fun _ => h⟩
    · rw [if_neg hd, if_neg hd]
      simp only [bind, Except.bind, List.forall_mem_cons]
      rcases consumeRound_spec h hd with ⟨hbad, e, he⟩ | ⟨hgood, cc, block, b', hr, hfacts⟩
      · rw [he]
        exact .inl ⟨⟨e, rfl⟩, fun hall => hbad hall.1⟩
      · rw [hr]
        cases cc with
        | none =>
          exact .inr ⟨⟨_, _, _, rfl, fun n hn => nomatch hn⟩, hgood, by simp⟩
        | some cc =>
          obtain ⟨hpos, hle, hinv, last, hlast⟩ := hfacts cc rfl
          simp only [hlast]
          cases last with
          | true =>
            refine .inr ⟨⟨_, _, _, rfl, fun n hn => ?_⟩, hgood, by simp⟩
            cases hn
            exact ⟨by omega, fun hf => nomatch hf⟩
          | false =>
            have hrest : (data.drop cc).length < fuel := by
              rw [List.length_drop]
              omega
            rcases ih (consumed + cc) hinv hrest with ⟨herr, hbad⟩ | ⟨hok, hall⟩
            · exact .inl ⟨herr, fun hall => hbad hall.2⟩
            · refine .inr ⟨?_, hgood, hall⟩
              obtain ⟨r, last, b'', hres, hcount⟩ := hok
              refine ⟨r, last, b'', hres, fun n hn => ?_⟩
              obtain ⟨hn', hinv'⟩ := hcount n hn
              rw [List.length_drop] at hn'
              exact ⟨by omega, hinv'⟩

theorem Counted.cons {r : Option ℕ} {rs : List (Option ℕ)} {chunk : List UInt8}
    {chunks : List (List UInt8)} (hr : ∀ n, r = some n → n ≤ chunk.length) (h : Counted rs chunks) :
    Counted (r :: rs) (chunk :: chunks) := by
  intro i n hi
  cases i with
  | zero =>
    rw [List.getElem?_cons_zero, Option.some.injEq] at hi
    exact ⟨chunk, rfl, hr n hi⟩
  | succ i =>
    rw [List.getElem?_cons_succ] at hi
    rw [List.getElem?_cons_succ]
    exact h i n hi

theorem consumeChunks_spec (chunks : List (List UInt8)) : ∀ {b : RecvBundle}, RecvInv host b →
    ((∃ rs, consumeChunks host b chunks = .ok rs ∧ Counted rs chunks) ↔
      ∀ v ∈ roundsOfChunks host b chunks, RoundOk host v.1 v.2) := by
  induction chunks with
  | nil =>
    intro b _
    exact ⟨fun _ v hv => by simp [roundsOfChunks] at hv,
      fun _ => ⟨[], rfl, fun i n hi => by simp at hi⟩⟩
  | cons chunk chunks ih =>
    intro b h
    have hloop := consumeLoop_spec (chunk.length + 1) 0 h (Nat.lt_succ_self chunk.length)
    rw [consumeChunks, roundsOfChunks, List.forall_mem_append]
    unfold consume
    simp only [bind, Except.bind]
    rcases hloop with ⟨⟨e, he⟩, hbad⟩ | ⟨⟨r, last, b', hres, hcount⟩, hall⟩
    · rw [he]
      exact ⟨fun ⟨rs, hrs, _⟩ => (nomatch hrs), fun hok => absurd hok.1 hbad⟩
    · rw [hres]
      have hr : ∀ n, r = some n → n ≤ chunk.length := fun n hn => by
        have := (hcount n hn).1
        omega
      have hone : Counted [r] (chunk :: chunks) := Counted.cons hr fun i n hi => by simp at hi
      cases r with
      | none => exact ⟨fun _ => ⟨hall, by simp⟩, fun _ => ⟨[none], rfl, hone⟩⟩
      | some n =>
        cases last with
        | true => exact ⟨fun _ => ⟨hall, by simp⟩, fun _ => ⟨[some n], rfl, hone⟩⟩
        | false =>
          have hnext := ih ((hcount n rfl).2 rfl)
          simp only [Option.isNone_some, Bool.or_self, Bool.false_eq_true, if_false]
          constructor
          · rintro ⟨rs, hrs, hcounted⟩
            refine ⟨hall, hnext.mp ?_⟩
            cases hrest : consumeChunks host b' chunks with
            | error e =>
              rw [hrest] at hrs
              cases hrs
            | ok rs' =>
              rw [hrest] at hrs
              cases hrs
              exact ⟨rs', rfl, fun i m hi => hcounted (i + 1) m hi⟩
          · rintro ⟨-, hok⟩
            obtain ⟨rs, hrs, hcounted⟩ := hnext.mpr hok
            rw [hrs]
            exact ⟨some n :: rs, rfl, hcounted.cons hr⟩

end

/-- No bytes abort the reception of a bundle, in any cut into chunks, unless a round meets bytes that
its condition names; the loop ends and uses no more than it was given. -/
theorem consumeChunks_safe_iff (host : Host) (nodata : Bool) (chunks : List (List UInt8)) :
    (∃ rs, consumeChunks host { nodata := nodata } chunks = .ok rs ∧ Counted rs chunks) ↔
      ∀ v ∈ roundsOfChunks host { nodata := nodata } chunks, RoundOk host v.1 v.2 :=
  consumeChunks_spec chunks ⟨fun _ => rfl, fun block hlast => by simp at hlast⟩

/-- Plain texts as URIs and a mebibyte of memory. -/
def smallHost : Host where
  memory := 1048576
  parse := splitUri
  behind _ := [0]
  static_le := by norm_num
  memory_lt := by norm_num

-- a bundle with a payload of two bytes, cut within the primary block and within the payload
example : consumeChunks smallHost { nodata := false }
    [[0x06, 0x10, 0x0c, 2, 1, 1, 1, 1], [1, 0, 0, 0, 0, 0x3c, 0, 0x01, 0x08, 2, 0x68], [0x69, 7]] =
      .ok [some 8, some 11, some 1] := by decide +kernel

/-- A primary block that says it has references to endpoint ids, none. -/
theorem consumeChunks_references : ¬ ∃ rs,
    consumeChunks smallHost { nodata := false } [[0x06, 0x40, 0x00, 0x01, 0x00]] = .ok rs ∧
      Counted rs [[0x06, 0x40, 0x00, 0x01, 0x00]] := by
  have h : consumeChunks smallHost { nodata := false } [[0x06, 0x40, 0x00, 0x01, 0x00]] =
      .error .assertFailed := by decide +kernel
  rintro ⟨rs, hrs, -⟩
  rw [h] at hrs
  cases hrs

end Dtnme.Bundling
