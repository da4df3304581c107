import Dtnme.Bundling.Bp6Refs

/-! # Unknown blocks of version 6 are forwarded

A block of a type without a processor is generated again from what was received: type and flags are read
from its first bytes, its references enter the dictionary of the outgoing bundle, and its data is
copied. A reader finds the dictionary in the primary block, which has none if all ids of the bundle are
written as numbers.
-/

namespace Dtnme.Bundling.Bp6Unknown
open Library Naming SdnvRecord

/-! ## Generating -/

/-- The field of references in the work area, and the dictionary afterwards. -/
def eidField (parse : List UInt8 → Option Uri) (dict : List UInt8) (eids : List Eid) :
    Except Fault (Scratch × List UInt8) :=
  let eidCount := u32 eids.length
  if 0 < eidCount then writeRefs parse eids dict (putWork eidCount { len := 1000 })
  else pure ({ len := 1000 }, dict)

/-- `BLOCK_FLAG_EID_REFS` is added to the flags of a block with references. -/
def refFlags (flags : ℕ) (eids : List Eid) : ℕ :=
  if 0 < u32 eids.length then flags ||| 0x40 else flags

/-- `BP6_BlockProcessor::generate_preamble` on a new block, which has a buffer of 64 bytes. -/
def generatePreamble (parse : List UInt8 → Option Uri) (dict : List UInt8) (eids : List Eid)
    (type : UInt8) (flags dataLength : ℕ) : Except Fault (List UInt8 × List UInt8) := do
  let (work, dict) ← eidField parse dict eids
  let flags := refFlags flags eids
  require (1 + encodingLen flags + work.out.length + encodingLen dataLength ≤ 64)
  pure (type :: (sdnv flags ++ (work.out ++ sdnv dataLength)), dict)

/-- The flags are kept in a byte. -/
def wireFlags (last : Bool) (flags : ℕ) : ℕ :=
  (if last then flags % 2 ^ 8 ||| 0x08 else flags % 2 ^ 8 &&& 0xf7) ||| 0x20

/-- `BP6_UnknownBlockProcessor::generate`: the block, and the dictionary. -/
def generate (host : Host) (dict : List UInt8) (source : RecvBlock) (last : Bool) :
    Except Fault (RecvBlock × List UInt8) := do
  require (source.owner = .unknown)
  let flags ← source.blockFlags
  require (flags.testBit 2 = false)
  if flags.testBit 4 then pure ({ owner := .unknown }, dict)
  else do
    require (source.contents ≠ [])
    require (source.dataOffset ≠ 0)
    let (preamble, dict) ← generatePreamble host.parse dict source.eidList
      (UInt8.ofNat source.type) (wireFlags last flags) source.dataLength
    let block : RecvBlock :=
      { owner := .unknown
        contents := preamble
        dataLength := source.dataLength
        dataOffset := preamble.length
        eidList := source.eidList }
    let block ← block.reserve host.memory block.fullLength
    pure ({ block with contents := preamble ++ source.data }, dict)

/-- `BP6_BlockProcessor::finalize`. -/
def finalize (b : PrimaryFields) (block : RecvBlock) : Except Fault Unit :=
  if b.isAdmin = true ∧ block.type ≠ 0 then do
    let flags ← block.blockFlags
    require (flags.testBit 1 = false)
  else pure ()

/-- `prepare_blocks` and `generate_blocks` for a bundle with the block, where the blocks before and
behind it refer to other ids: the bytes of the primary block, and the block. -/
def transmit (host : Host) (b : PrimaryFields) (earlier later : List Eid) (source : RecvBlock)
    (last : Bool) : Except Fault (List UInt8 × RecvBlock) := do
  let dict ← prepare host.parse b
  let dict ← addEids host.parse earlier dict
  let (block, dict) ← generate host dict source last
  let flagged ← block.lastBlock
  require (flagged = last)
  let dict ← addEids host.parse later dict
  let primary ← generatePrimary host.parse host.memory b dict
  finalize b block
  pure (primary, block)

/-! ## Received blocks -/

/-- A complete block of a type without a processor, as it was received with a dictionary. -/
structure Received (dict : List UInt8) (p : Preamble) (s : RecvBlock) : Prop where
  owner : s.owner = .unknown
  parsed : preamble dict s.contents = some p
  length_eq : s.contents.length = p.offset + p.blockLen
  dataOffset : s.dataOffset = p.offset
  dataLength : s.dataLength = p.blockLen
  eidList : s.eidList = p.eidList
  unknown : findProcessor (s.contents.headD 0) = .unknown

/-- The block passes `validate` and `prepare`: no flag asks to discard it or the bundle, and in an
administrative bundle none asks for a report. -/
def Forwarded (b : PrimaryFields) (s : RecvBlock) : Prop :=
  ∃ flags, s.blockFlags = .ok flags ∧ flags.testBit 4 = false ∧ flags.testBit 2 = false ∧
    (b.isAdmin = true → s.type ≠ 0 → flags.testBit 1 = false)

/-- A block that came in any pieces. -/
theorem received_upTo (memory : ℕ) {dict : List UInt8} {p : Preamble} {z : List UInt8}
    (h : Image memory dict p z) (hunknown : findProcessor (z.headD 0) = .unknown) :
    Received dict p (RecvBlock.upTo .unknown p z) := by
  have hlen := h.length_eq
  rw [RecvBlock.upTo_of_le .unknown (by omega)]
  exact ⟨rfl, h.parsed, hlen, rfl, rfl, rfl, hunknown⟩

/-- The flags as they stand behind the type byte. -/
def flagsOf (contents : List UInt8) : Option ℕ := (readSdnv (contents.drop 1)).map Prod.fst

/-- Two names of one id: the same pool entry, or valid ones of the same URI. -/
def SameRef (parse : List UInt8 → Option Uri) (e f : Eid) : Prop :=
  f = e ∨ ∃ u, e.uri? parse = some u ∧ f.uri? parse = some u

/-- Type byte, data, references, and all flags but `BLOCK_FLAG_LAST_BLOCK` and
`BLOCK_FLAG_FORWARDED_UNPROCESSED`. -/
structure SameBlock (parse : List UInt8 → Option Uri) (s out : RecvBlock) : Prop where
  type : out.contents.head? = s.contents.head?
  data : out.data = s.data
  eids : List.Forall₂ (SameRef parse) s.eidList out.eidList
  flags : ∃ f g, flagsOf s.contents = some f ∧ flagsOf out.contents = some g ∧
    ∀ i, i ≠ 3 → i ≠ 5 → g.testBit i = f.testBit i

/-- The block is sent with its type byte, and a node that has the primary block of the bundle parses the
same block, with whatever follows it. -/
def Faithful (host : Host) (b : PrimaryFields) (earlier later : List Eid) (s : RecvBlock)
    (last : Bool) : Prop :=
  ∃ primary block, transmit host b earlier later s last = .ok (primary, block) ∧
    block.contents.head? = s.contents.head? ∧ ∀ nodata, ∃ recv pblock,
      consumePrimaryBlock host { nodata := nodata } { owner := .primary } primary =
        .ok (some primary.length, pblock, recv) ∧ pblock.complete = true ∧
      ∀ (index : ℕ) (c : RecvBundle) (rest : List UInt8), c.dict = recv.dict →
        (last = true → rest = []) → ∃ out,
          consumeOwner host index c { owner := findProcessor (block.contents.headD 0) }
            (block.contents ++ rest) = .ok (some block.contents.length, out, c) ∧
          out.complete = true ∧ SameBlock host.parse s out

/-! ## When a block is kept -/

section
variable (parse : List UInt8 → Option Uri)

/-- The ids whose texts `prepare` adds. -/
def bundleIds (b : PrimaryFields) : List Eid :=
  if allCbheCompat parse b then [] else [b.dest, b.source, b.replyto, b.custodian]

/-- The texts of the dictionary for the ids of a bundle and of blocks. -/
def texts (b : PrimaryFields) (eids : List Eid) : List (List UInt8) :=
  Dictionary.entries parse [] (bundleIds parse b ++ eids)

/-- The length of the field of references. -/
def fieldLen (l : List (List UInt8)) (eids : List Eid) : ℕ :=
  if eids = [] then 0 else encodingLens (eids.length :: refVals parse l eids)

/-- The length of the preamble that is generated from flags. -/
def preambleLen (b : PrimaryFields) (earlier : List Eid) (s : RecvBlock) (last : Bool)
    (flags : ℕ) : ℕ :=
  1 + encodingLen (refFlags (wireFlags last flags) s.eidList) +
    fieldLen parse (texts parse b (earlier ++ s.eidList)) s.eidList + encodingLen s.dataLength

/-- What a reader of the bundle makes of a reference. -/
def readRef (b : PrimaryFields) (eids : List Eid) (e : Eid) : Eid :=
  if allCbheCompat parse b then makeEidNull else Dictionary.restored parse (texts parse b eids) e

end

/-- The first two bytes are not those of a block of version 7. -/
def NotArray (contents : List UInt8) : Prop :=
  contents.headD 0 = 0x85 ∨ contents.headD 0 = 0x86 → 0x20 ≤ (contents.getD 1 0).toNat

/-- The block does not start like one of version 7, its flags are those of a byte, the flag for
references has references, the preamble fits into its buffer, with room behind it if no data but
another block follows, and the reader makes the same ids of the references. -/
structure Keeps (parse : List UInt8 → Option Uri) (b : PrimaryFields) (earlier later : List Eid)
    (s : RecvBlock) (flags : ℕ) (last : Bool) : Prop where
  notArray : NotArray s.contents
  flags_lt : flags < 256
  refs : flags.testBit 6 = true → s.eidList ≠ []
  fits : preambleLen parse b earlier s last flags ≤ 64
  room : last = false → s.dataLength = 0 → preambleLen parse b earlier s last flags < 64
  eids : ∀ e ∈ s.eidList, SameRef parse e (readRef parse b (earlier ++ s.eidList ++ later) e)

/-! ## Type and flags of the source -/

section
variable {host : Host} {b : PrimaryFields} {dict : List UInt8} {p : Preamble} {s : RecvBlock}
  {last : Bool}

theorem Received.exists_bytes (h : Received dict p s) :
    ∃ t u rest, s.contents = t :: u :: rest := by
  obtain ⟨hoff, hlen, -⟩ := preamble_bound h.parsed
  cases hc : s.contents with
  | nil =>
    rw [hc, List.length_nil] at hlen
    omega
  | cons t l =>
    cases l with
    | nil =>
      rw [hc, List.length_singleton] at hlen
      omega
    | cons u rest => exact ⟨t, u, rest, rfl⟩

theorem Received.head_ne (h : Received dict p s) : s.contents.headD 0 ≠ 0 := by
  intro hzero
  have hunknown := h.unknown
  rw [hzero] at hunknown
  cases hunknown

theorem and_e0 : ∀ r : Fin 256, (UInt8.ofFin r).toNat &&& 0xe0 ≠ 0 ↔ 0x20 ≤ (UInt8.ofFin r).toNat := by
  decide +kernel

theorem and_e0_iff (u : UInt8) : u.toNat &&& 0xe0 ≠ 0 ↔ 0x20 ≤ u.toNat := and_e0 u.toFin

/-- Other blocks have their first byte for a type. -/
theorem type_of_notArray {block : RecvBlock} (howner : block.owner ≠ .primary)
    (hlen : 2 ≤ block.contents.length) (h : NotArray block.contents) :
    block.type = (block.contents.headD 0).toNat := by
  rw [RecvBlock.type, if_neg howner]
  cases hc : block.contents with
  | nil => simp [hc] at hlen
  | cons t l =>
    cases l with
    | nil => simp [hc] at hlen
    | cons u rest =>
      rw [hc] at h
      simp only [NotArray, List.headD_cons, List.getD_cons_succ, List.getD_cons_zero] at h ⊢
      by_cases ht : t = 0x85 ∨ t = 0x86
      · rw [if_pos (by simpa using ht), if_pos ((and_e0_iff u).mpr (h ht))]
      · rw [if_neg (by simpa using ht)]

theorem Received.flagsOf_eq (h : Received dict p s) : flagsOf s.contents = some p.flags := by
  obtain ⟨n, o, k, hflags, -⟩ := preamble_eq_some h.parsed
  rw [flagsOf, hflags]
  rfl

theorem Received.blockFlags_eq (h : Received dict p s) (htype : s.type ≠ 0) :
    s.blockFlags = .ok p.flags := by
  obtain ⟨n, o, k, hflags, -⟩ := preamble_eq_some h.parsed
  rw [RecvBlock.blockFlags, if_neg htype, hflags]

theorem Received.type_eq (h : Received dict p s) (hn : NotArray s.contents) :
    s.type = (s.contents.headD 0).toNat := by
  obtain ⟨t, u, rest, hc⟩ := h.exists_bytes
  apply type_of_notArray _ _ hn
  · rw [h.owner]
    decide
  · rw [hc]
    simp

theorem Received.type_ne (h : Received dict p s) (hn : NotArray s.contents) : s.type ≠ 0 := by
  rw [h.type_eq hn]
  exact fun hzero => h.head_ne (UInt8.toNat_inj.mp hzero)

theorem readSdnv_small {u : UInt8} (hu : u.toNat < 128) (rest : List UInt8) :
    readSdnv (u :: rest) = some (u.toNat, 1) := by
  have hval : u64 (0 * 128 + u.toNat % 128) = u.toNat := by
    rw [Nat.zero_mul, Nat.zero_add, Nat.mod_eq_of_lt hu]
    exact u64_of_lt (lt_trans hu (by norm_num))
  rw [readSdnv_eq, sdnvLoop]
  simp only [if_pos hu, hval, Option.bind_some, Nat.zero_add]
  rw [if_neg]
  rintro (hlt | ⟨heq, -⟩)
  · exact absurd hlt (by decide)
  · exact absurd heq (by decide)

/-- A block that starts like one of version 7 gets its flags for a type. -/
theorem Received.type_array (h : Received dict p s) (hf : Forwarded b s)
    (hn : ¬ NotArray s.contents) : s.contents.head? ≠ some (UInt8.ofNat s.type) := by
  obtain ⟨t, u, rest, hc⟩ := h.exists_bytes
  simp only [NotArray, hc, List.headD_cons, List.getD_cons_succ, List.getD_cons_zero,
    Classical.not_imp, Nat.not_le] at hn
  obtain ⟨ht, hu⟩ := hn
  have htlarge : 0x85 ≤ t.toNat := by
    rcases ht with rfl | rfl <;> decide
  rw [hc, List.head?_cons, ne_eq, Option.some.injEq]
  intro heq
  have hmod := congrArg UInt8.toNat heq
  rw [UInt8.toNat_ofNat'] at hmod
  by_cases hzero : s.type = 0
  · rw [hzero] at hmod
    omega
  · -- the second byte is the value of the flags, and bit 4 of it is clear
    obtain ⟨flags, hflags, hdiscard, -⟩ := hf
    have hread := readSdnv_small (u := u) (by omega) rest
    rw [RecvBlock.blockFlags, if_neg hzero, hc, List.drop_one, List.tail_cons, hread] at hflags
    cases hflags
    have hsmall : ∀ r : Fin 32, (r : ℕ).testBit 4 = false → (r : ℕ) < 0x18 := by decide
    have hlt := hsmall ⟨u.toNat, hu⟩ hdiscard
    have htype : s.type = u.toNat := by
      have howner : s.owner ≠ .primary := by
        rw [h.owner]
        decide
      rw [RecvBlock.type, if_neg howner, hc]
      simp only
      rw [if_pos (by simpa using ht), if_neg (mt (and_e0_iff u).mp (by omega)), if_pos hlt]
    rw [htype] at hmod
    omega

end

/-! ## The outgoing flags -/

theorem testBit_f7 (i : ℕ) (h3 : i ≠ 3) (h8 : i < 8) : (0xf7 : ℕ).testBit i = true := by
  have hall : ∀ j : Fin 8, (j : ℕ) ≠ 3 → (0xf7 : ℕ).testBit j = true := by decide
  exact hall ⟨i, h8⟩ h3

/-- The other bits of the byte are kept. -/
theorem testBit_wireFlags (last : Bool) (flags : ℕ) {i : ℕ} (h3 : i ≠ 3) (h5 : i ≠ 5) :
    (wireFlags last flags).testBit i = (decide (i < 8) && flags.testBit i) := by
  have h08 : (0x08 : ℕ).testBit i = false := by
    have : (0x08 : ℕ) = 2 ^ 3 := rfl
    rw [this, Nat.testBit_two_pow]
    exact decide_eq_false (Ne.symm h3)
  have h20 : (0x20 : ℕ).testBit i = false := by
    have : (0x20 : ℕ) = 2 ^ 5 := rfl
    rw [this, Nat.testBit_two_pow]
    exact decide_eq_false (Ne.symm h5)
  rw [wireFlags, Nat.testBit_or, h20, Bool.or_false]
  cases last with
  | true => rw [if_pos rfl, Nat.testBit_or, h08, Bool.or_false, Nat.testBit_mod_two_pow]
  | false =>
    rw [if_neg Bool.false_ne_true, Nat.testBit_and, Nat.testBit_mod_two_pow]
    by_cases h8 : i < 8
    · rw [testBit_f7 i h3 h8, Bool.and_true]
    · rw [decide_eq_false h8, Bool.false_and, Bool.false_and]

theorem testBit_wireFlags_three (last : Bool) (flags : ℕ) :
    (wireFlags last flags).testBit 3 = last := by
  have h08 : (0x08 : ℕ).testBit 3 = true := by decide
  have hf7 : (0xf7 : ℕ).testBit 3 = false := by decide
  have h20 : (0x20 : ℕ).testBit 3 = false := by decide
  rw [wireFlags, Nat.testBit_or, h20, Bool.or_false]
  cases last with
  | true => rw [if_pos rfl, Nat.testBit_or, h08, Bool.or_true]
  | false => rw [if_neg Bool.false_ne_true, Nat.testBit_and, hf7, Bool.and_false]

theorem testBit_wireFlags_five (last : Bool) (flags : ℕ) :
    (wireFlags last flags).testBit 5 = true := by
  have h20 : (0x20 : ℕ).testBit 5 = true := by decide
  rw [wireFlags, Nat.testBit_or, h20, Bool.or_true]

theorem wireFlags_lt (last : Bool) (flags : ℕ) : wireFlags last flags < 256 := by
  have h256 : (256 : ℕ) = 2 ^ 8 := rfl
  rw [h256]
  refine Nat.lt_pow_two_of_testBit _ fun i hi => ?_
  rw [testBit_wireFlags last flags (by omega) (by omega), decide_eq_false (by omega), Bool.false_and]

/-- References are announced if there are any, and also if the source announced some. -/
theorem testBit_refFlags {eids : List Eid} (hlen : eids.length < 2 ^ 32) (flags : ℕ) (i : ℕ) :
    (refFlags flags eids).testBit i = (flags.testBit i || (decide (eids ≠ []) && decide (i = 6))) := by
  have h40 : (0x40 : ℕ) = 2 ^ 6 := rfl
  rw [refFlags, u32_of_lt hlen]
  by_cases heids : eids = []
  · simp [heids]
  · rw [if_pos (List.length_pos_of_ne_nil heids), Nat.testBit_or, h40, Nat.testBit_two_pow]
    simp [heids, eq_comm]

theorem refFlags_lt {flags : ℕ} (h : flags < 256) (eids : List Eid) : refFlags flags eids < 256 := by
  unfold refFlags
  split_ifs
  · exact Nat.or_lt_two_pow (n := 8) h (by norm_num)
  · exact h

/-- With the flag for a block that is forwarded unprocessed, flags do not look like a type of
version 7. -/
theorem sdnv_five : ∀ r : Fin 256, (r : ℕ).testBit 5 = true →
    ∃ u ∈ (sdnv r).head?, 0x20 ≤ UInt8.toNat u := by
  decide +kernel

theorem exists_sdnv_head {flags : ℕ} (h : flags < 256) (h5 : flags.testBit 5 = true) :
    ∃ u rest, sdnv flags = u :: rest ∧ 0x20 ≤ u.toNat := by
  obtain ⟨u, hu, hle⟩ := sdnv_five ⟨flags, h⟩ h5
  obtain ⟨rest, hrest⟩ := List.head?_eq_some_iff.mp hu
  exact ⟨u, rest, hrest, hle⟩

/-! ## The generated block -/

section
variable {parse : List UInt8 → Option Uri}

/-- The field of references as it stands in the block. -/
def fieldBytes (parse : List UInt8 → Option Uri) (l : List (List UInt8)) (eids : List Eid) :
    List UInt8 :=
  if eids = [] then [] else sdnvs (eids.length :: refVals parse l eids)

theorem words_count {l : List (List UInt8)} {eids : List Eid} (hlen : eids.length < 2 ^ 32)
    (hwords : Words (refVals parse l eids)) : Words (eids.length :: refVals parse l eids) := by
  intro v hv
  rcases List.mem_cons.mp hv with rfl | hv
  · exact lt_trans hlen (by norm_num)
  · exact hwords v hv

theorem length_fieldBytes {l : List (List UInt8)} {eids : List Eid} (hlen : eids.length < 2 ^ 32)
    (hwords : Words (refVals parse l eids)) :
    (fieldBytes parse l eids).length = fieldLen parse l eids := by
  unfold fieldBytes fieldLen
  split_ifs
  · rfl
  · exact length_sdnvs (words_count hlen hwords)

/-- The field is written if it is not longer than the work area, and too long for a block otherwise. -/
theorem eidField_eq (hU : IsUri parse) {l : List (List UInt8)} (hl : Dictionary.Clean l)
    (hn : l.Nodup) {eids : List Eid} (hlen : eids.length < 2 ^ 32)
    (hwords : Words (refVals parse (Dictionary.entries parse l eids) eids)) :
    ∃ work, eidField parse (table l) eids =
        .ok (work, table (Dictionary.entries parse l eids)) ∧
      (work.out = fieldBytes parse (Dictionary.entries parse l eids) eids ∨
        64 < work.out.length ∧ 64 < fieldLen parse (Dictionary.entries parse l eids) eids) := by
  have hcount := words_count hlen hwords
  rw [eidField, u32_of_lt hlen]
  by_cases heids : eids = []
  · subst heids
    exact ⟨{ len := 1000 }, rfl, .inl rfl⟩
  · have hpos := List.length_pos_of_ne_nil heids
    rw [if_pos hpos, writeRefs_eq hU eids hl hn, ← putWorks_cons, fieldBytes, fieldLen, if_neg heids,
      if_neg heids]
    refine ⟨_, rfl, ?_⟩
    have htotal := putWorks_total hcount (s := { len := 1000 }) (by norm_num)
    rcases putWorks_out hcount (s := { len := 1000 }) with ⟨-, hout⟩ | ⟨hlt, hend⟩
    · exact .inl hout
    · simp only [List.length_nil, Nat.zero_add] at htotal hlt
      exact .inr ⟨by omega, by omega⟩

/-- What a preamble consists of when it is generated. -/
def preambleBytes (parse : List UInt8 → Option Uri) (l : List (List UInt8)) (eids : List Eid)
    (type : UInt8) (flags dataLength : ℕ) : List UInt8 :=
  type :: (sdnv (refFlags flags eids) ++ (fieldBytes parse l eids ++ sdnv dataLength))

theorem generatePreamble_eq (hU : IsUri parse) {l : List (List UInt8)} (hl : Dictionary.Clean l)
    (hn : l.Nodup) {eids : List Eid} (hlen : eids.length < 2 ^ 32)
    (hwords : Words (refVals parse (Dictionary.entries parse l eids) eids)) (type : UInt8)
    (flags dataLength : ℕ) : generatePreamble parse (table l) eids type flags dataLength =
      if 1 + encodingLen (refFlags flags eids) +
          fieldLen parse (Dictionary.entries parse l eids) eids + encodingLen dataLength ≤ 64 then
        .ok (preambleBytes parse (Dictionary.entries parse l eids) eids type flags dataLength,
          table (Dictionary.entries parse l eids))
      else .error .assertFailed := by
  obtain ⟨work, hfield, hout⟩ := eidField_eq hU hl hn hlen hwords
  have hbytes := length_fieldBytes hlen hwords
  rw [generatePreamble, hfield]
  simp only [bind, Except.bind]
  rcases hout with hout | ⟨hlong, hlong'⟩
  · rw [hout, hbytes]
    by_cases hfits : 1 + encodingLen (refFlags flags eids) +
        fieldLen parse (Dictionary.entries parse l eids) eids + encodingLen dataLength ≤ 64
    · rw [if_pos hfits, require_of hfits]
      rfl
    · rw [if_neg hfits, require, if_neg hfits]
  · rw [if_neg (by omega), require, if_neg (by omega)]

theorem length_preambleBytes {l : List (List UInt8)} {eids : List Eid}
    (hlen : eids.length < 2 ^ 32) (hwords : Words (refVals parse l eids)) (type : UInt8)
    {flags dataLength : ℕ} (hflags : flags < 256) (hdata : dataLength < 2 ^ 64) :
    (preambleBytes parse l eids type flags dataLength).length =
      1 + encodingLen (refFlags flags eids) + fieldLen parse l eids + encodingLen dataLength := by
  have hrefs : refFlags flags eids < 2 ^ 64 := lt_trans (refFlags_lt hflags eids) (by norm_num)
  rw [preambleBytes, List.length_cons, List.length_append, List.length_append, length_sdnv hrefs,
    length_sdnv hdata, length_fieldBytes hlen hwords]
  omega

end

section
variable {host : Host} {b : PrimaryFields} {earlier later : List Eid} {dict : List UInt8}
  {p : Preamble} {s : RecvBlock} {last : Bool}

/-- The bytes of a block that is sent. -/
def sentBytes (parse : List UInt8 → Option Uri) (l : List (List UInt8)) (s : RecvBlock)
    (last : Bool) (flags : ℕ) : List UInt8 :=
  preambleBytes parse l s.eidList (s.contents.headD 0) (wireFlags last flags) s.dataLength ++ s.data

def sentBlock (parse : List UInt8 → Option Uri) (l : List (List UInt8)) (s : RecvBlock)
    (last : Bool) (flags : ℕ) (block : RecvBlock) : Prop :=
  block.owner = .unknown ∧ block.contents = sentBytes parse l s last flags

theorem Received.length_eidList (h : Received dict p s) : s.eidList.length < 2 ^ 32 := by
  obtain ⟨n, o, k, -, hrefs, -⟩ := preamble_eq_some h.parsed
  rw [h.eidList]
  exact (eidRefs_count hrefs).1

theorem Received.eidList_nil (h : Received dict p s) (h6 : p.flags.testBit 6 = false) :
    s.eidList = [] := by
  obtain ⟨n, o, k, -, hrefs, -⟩ := preamble_eq_some h.parsed
  rw [h.eidList]
  exact (eidRefs_count hrefs).2 h6

theorem Received.length_data (h : Received dict p s) : s.data.length = s.dataLength := by
  have hlen := h.length_eq
  rw [RecvBlock.data, List.length_take, List.length_drop, h.dataOffset, h.dataLength]
  omega

theorem Received.dataLength_lt (h : Received dict p s) : s.dataLength < 2 ^ 64 := by
  rw [h.dataLength]
  exact (preamble_bound h.parsed).2.2

/-- What is generated for a block that is not discarded starts with its type. -/
theorem generate_head (hf : Forwarded b s) {d d' : List UInt8} {block : RecvBlock}
    (hgen : generate host d s last = .ok (block, d')) :
    block.contents.head? = some (UInt8.ofNat s.type) := by
  obtain ⟨flags, hflags, hdiscard, -⟩ := hf
  obtain ⟨-, -, hgen⟩ := of_bind_ok hgen
  obtain ⟨flags', hflags', hgen⟩ := of_bind_ok hgen
  obtain rfl : flags = flags' := Except.ok.inj (hflags.symm.trans hflags')
  obtain ⟨-, -, hgen⟩ := of_bind_ok hgen
  rw [hdiscard, if_neg Bool.false_ne_true] at hgen
  obtain ⟨-, -, hgen⟩ := of_bind_ok hgen
  obtain ⟨-, -, hgen⟩ := of_bind_ok hgen
  obtain ⟨⟨bytes, dict'⟩, hpre, hgen⟩ := of_bind_ok hgen
  obtain ⟨blk, -, hgen⟩ := of_bind_ok hgen
  obtain ⟨work, -, hpre⟩ := of_bind_ok hpre
  obtain ⟨-, -, hpre⟩ := of_bind_ok hpre
  cases hpre
  cases hgen
  rfl

theorem generate_eq (last : Bool) (hU : IsUri host.parse) (h : Received dict p s) (hf : Forwarded b s)
    (hn : NotArray s.contents) (hmem : 64 + s.dataLength ≤ host.memory) {l : List (List UInt8)}
    (hl : Dictionary.Clean l) (hnodup : l.Nodup)
    (hwords : Words (refVals host.parse (Dictionary.entries host.parse l s.eidList) s.eidList)) :
    (64 < 1 + encodingLen (refFlags (wireFlags last p.flags) s.eidList) +
        fieldLen host.parse (Dictionary.entries host.parse l s.eidList) s.eidList +
        encodingLen s.dataLength ∧ ∃ e, generate host (table l) s last = .error e) ∨
      (1 + encodingLen (refFlags (wireFlags last p.flags) s.eidList) +
        fieldLen host.parse (Dictionary.entries host.parse l s.eidList) s.eidList +
        encodingLen s.dataLength ≤ 64 ∧ ∃ block, generate host (table l) s last =
          .ok (block, table (Dictionary.entries host.parse l s.eidList)) ∧
        sentBlock host.parse (Dictionary.entries host.parse l s.eidList) s last p.flags block) := by
  obtain ⟨flags, hflags, hdiscard, hbundle, -⟩ := hf
  obtain rfl : p.flags = flags := Except.ok.inj ((h.blockFlags_eq (h.type_ne hn)).symm.trans hflags)
  have hcontents : s.contents ≠ [] := by
    obtain ⟨t, u, rest, hc⟩ := h.exists_bytes
    rw [hc]
    exact List.cons_ne_nil t _
  have hoff : s.dataOffset ≠ 0 := by
    have := (preamble_bound h.parsed).1
    rw [h.dataOffset]
    omega
  have htype : UInt8.ofNat s.type = s.contents.headD 0 := by rw [h.type_eq hn, UInt8.ofNat_toNat]
  have hlen := length_preambleBytes (l := Dictionary.entries host.parse l s.eidList) h.length_eidList
    hwords (s.contents.headD 0) (wireFlags_lt last p.flags) h.dataLength_lt
  rw [generate, h.owner, require_of rfl, hflags]
  simp only [bind, Except.bind]
  rw [require_of hbundle, require_of hcontents, require_of hoff]
  simp only [hdiscard, Bool.false_eq_true, if_false, htype]
  rw [generatePreamble_eq hU hl hnodup h.length_eidList hwords]
  by_cases hfits : 1 + encodingLen (refFlags (wireFlags last p.flags) s.eidList) +
      fieldLen host.parse (Dictionary.entries host.parse l s.eidList) s.eidList +
      encodingLen s.dataLength ≤ 64
  · rw [if_pos hfits]
    refine .inr ⟨hfits, ?_⟩
    have hfull : u64 ((preambleBytes host.parse (Dictionary.entries host.parse l s.eidList) s.eidList
        (s.contents.headD 0) (wireFlags last p.flags) s.dataLength).length + s.dataLength) =
        (preambleBytes host.parse (Dictionary.entries host.parse l s.eidList) s.eidList
        (s.contents.headD 0) (wireFlags last p.flags) s.dataLength).length + s.dataLength := by
      have hmax := host.memory_lt
      exact u64_of_lt (by omega)
    simp only
    rw [RecvBlock.fullLength, hfull, RecvBlock.reserve_of_le _ (by omega) (by omega)]
    exact ⟨_, rfl, rfl, rfl⟩
  · rw [if_neg hfits]
    exact .inl ⟨Nat.lt_of_not_le hfits, _, rfl⟩

/-- The assertions behind `generate` hold of the block. -/
theorem sentBlock_flags (h : Received dict p s) {l : List (List UInt8)}
    {block : RecvBlock} (hblock : sentBlock host.parse l s last p.flags block) :
    block.type ≠ 0 ∧
      block.blockFlags = .ok (refFlags (wireFlags last p.flags) s.eidList) ∧
      flagsOf block.contents = some (refFlags (wireFlags last p.flags) s.eidList) := by
  obtain ⟨howner, hcontents⟩ := hblock
  have hrefs := refFlags_lt (wireFlags_lt last p.flags) s.eidList
  have hread := readSdnv_sdnv (lt_trans hrefs (by norm_num : 256 < 2 ^ 64))
    (fieldBytes host.parse l s.eidList ++ sdnv s.dataLength ++ s.data)
  have hdrop : block.contents.drop 1 = sdnv (refFlags (wireFlags last p.flags) s.eidList) ++
      (fieldBytes host.parse l s.eidList ++ sdnv s.dataLength ++ s.data) := by
    rw [hcontents, sentBytes, preambleBytes]
    simp
  have hfive : (refFlags (wireFlags last p.flags) s.eidList).testBit 5 = true := by
    rw [testBit_refFlags h.length_eidList, testBit_wireFlags_five, Bool.true_or]
  obtain ⟨u, rest, hsdnv, hu⟩ := exists_sdnv_head hrefs hfive
  have htype : block.type = (s.contents.headD 0).toNat := by
    have hhead : block.contents.headD 0 = s.contents.headD 0 := by
      rw [hcontents, sentBytes, preambleBytes]
      rfl
    rw [← hhead]
    refine type_of_notArray (by rw [howner]; decide) ?_ fun _ => ?_
    · rw [hcontents, sentBytes, preambleBytes, hsdnv]
      simp
    · rw [hcontents, sentBytes, preambleBytes, hsdnv]
      exact hu
  have hne : block.type ≠ 0 := by
    rw [htype]
    exact fun hzero => h.head_ne (UInt8.toNat_inj.mp hzero)
  refine ⟨hne, ?_, ?_⟩
  · rw [RecvBlock.blockFlags, if_neg hne, hdrop, hread]
  · rw [flagsOf, hdrop, hread]
    rfl

end

/-! ## The primary block carries the dictionary -/

section
variable {parse : List UInt8 → Option Uri} {b : PrimaryFields}

/-- The dictionary that the primary block has. -/
def sentDict (parse : List UInt8 → Option Uri) (b : PrimaryFields) (l : List (List UInt8)) :
    List UInt8 :=
  if allCbheCompat parse b then [] else table l

theorem eidOffsets_numbers (hall : allCbheCompat parse b = true) (dict : List UInt8) :
    eidOffsets parse b dict = eidOffsets parse b [] := by
  rw [eidOffsets, eidOffsets, if_pos hall, if_pos hall]

/-- Ids that are numbers have no use for the dictionary. -/
theorem generatePrimary_numbers (hall : allCbheCompat parse b = true) (memory : ℕ)
    (dict : List UInt8) : generatePrimary parse memory b dict = generatePrimary parse memory b [] := by
  obtain ⟨primary, -, hoff, hp, -⟩ := paired_numbers hall
  have hget : ∀ d, getPrimaryLen parse b d = getPrimaryLen parse b [] := fun d => by
    rw [getPrimaryLen, getPrimaryLen, eidOffsets_numbers hall d]
  have hzero : primary.dictionaryLength = 0 := hp.length
  have hwrite : ∀ (n : ℕ) (d : List UInt8) (w : List UInt8 × ℕ),
      writeDict { primary with blockLength := n } d w = .ok w := by
    intro n d w
    rw [writeDict, if_neg (by simp only [hzero]; exact lt_irrefl 0)]
  rw [generatePrimary, generatePrimary, hget dict, getPrimaryLen, hoff]
  simp only [bind, Except.bind, pure, Except.pure, hwrite]

/-- The pairs of any four ids whose texts are in the dictionary. -/
theorem eidOffsets_texts (hall : allCbheCompat parse b = false) {l : List (List UInt8)}
    (hl : Dictionary.Clean l) (hn : l.Nodup) (hlen : (table l).length < 2 ^ 64)
    (hmem : ∀ e ∈ [b.dest, b.source, b.replyto, b.custodian], ∀ s ∈ Dictionary.parts parse e, s ∈ l) :
    ∃ primary, eidOffsets parse b (table l) = .ok primary ∧
      primary.processingFlags = processingFlags parse b ∧ Words primary.values ∧
      primary.dictionaryLength = (table l).length := by
  have hpair : ∀ e ∈ [b.dest, b.source, b.replyto, b.custodian], ∃ pair,
      Dictionary.getOffsets parse (table l) e = .ok pair ∧ pair.1 < 2 ^ 64 ∧ pair.2 < 2 ^ 64 := by
    intro e he
    have hparts := hmem e he
    refine ⟨_, Dictionary.getOffsets_eq hl hn hparts, ?_, ?_⟩
    · exact lt_trans (Dictionary.offsetOf_lt (hparts _ List.mem_cons_self)) hlen
    · exact lt_trans (Dictionary.offsetOf_lt
        (hparts _ (List.mem_cons_of_mem _ List.mem_cons_self))) hlen
  obtain ⟨pd, gd, bd⟩ := hpair b.dest (by simp)
  obtain ⟨ps, gs, bs⟩ := hpair b.source (by simp)
  obtain ⟨pr, gr, br⟩ := hpair b.replyto (by simp)
  obtain ⟨pc, gc, bc⟩ := hpair b.custodian (by simp)
  rw [eidOffsets, if_neg (by simp [hall]), gd]
  simp only [bind, Except.bind, gs, gr, gc]
  refine ⟨_, rfl, rfl, words_values ?_ ?_, rfl⟩
  · simp only [List.mem_cons, List.not_mem_nil, or_false, forall_eq_or_imp, forall_eq]
    exact ⟨bd, bs, br, bc⟩
  · intro v hv
    simp only [List.mem_cons, List.not_mem_nil, or_false] at hv
    rcases hv with rfl | rfl | rfl | rfl
    · exact b.creationSecs.toNat_lt
    · exact b.seqno.toNat_lt
    · exact b.expirationSecs.toNat_lt
    · exact hlen

/-- A primary block whose pairs are known is generated and read, and leaves its dictionary. -/
theorem primary_read {memory : ℕ} {primary : PrimaryBlock} {dict : List UInt8}
    (hoff : eidOffsets parse b dict = .ok primary)
    (hflags : primary.processingFlags = processingFlags parse b) (hvalues : Words primary.values)
    (hdict : primary.dictionaryLength = dict.length) (hlast : dict ≠ [] → dict.getLast? = some 0)
    (hword : dict.length + 512 ≤ 2 ^ 32) (hmemory : dict.length + 512 ≤ memory) :
    ∃ bytes block c, generatePrimary parse memory b dict = .ok bytes ∧
      consumePrimary memory [] {} { owner := .primary } bytes =
        .ok (some bytes.length, block, c, dict) ∧ block.complete = true := by
  have hlt : primary.processingFlags < 2 ^ 64 := by
    rw [hflags]
    exact processingFlags_lt b
  have hbody := length_bodyBytes hvalues dict b
  have hvals := encodingLens_le hvalues
  have hfrag := encodingLens_le (fragValues_words b)
  have hfragLen : b.fragValues.length ≤ 2 := by
    unfold PrimaryFields.fragValues
    split_ifs <;> simp
  have htwelve : primary.values.length = 12 := rfl
  have hlen := length_blockBytes (l := bodyBytes primary.values dict b.fragValues) hlt (by omega)
  have hmax := encodingLen_le_max hlt
  have hmax' : encodingLen (bodyBytes primary.values dict b.fragValues).length ≤ maxLength :=
    encodingLen_le_max (by omega)
  have hten : maxLength = 10 := rfl
  obtain ⟨hgen, -⟩ := generatePrimary_eq memory hoff hlt hvalues hdict (by omega) (by omega)
  obtain ⟨block, hcomplete, hconsume⟩ := consumePrimary_eq memory b hlt
    (by rw [hflags]; exact processingFlags_six b) hvalues
    (by rw [hflags]; exact (parseFlags_processingFlags b).1.isFragment) hdict hlast (by omega)
    (by omega)
  exact ⟨_, block, _, hgen, hconsume, hcomplete⟩

theorem primary_carries {memory : ℕ} {l : List (List UInt8)} (hl : Dictionary.Clean l)
    (hn : l.Nodup) (hmem : ∀ e ∈ bundleIds parse b, ∀ s ∈ Dictionary.parts parse e, s ∈ l)
    (hword : (table l).length + 512 ≤ 2 ^ 32) (hmemory : (table l).length + 512 ≤ memory) :
    ∃ bytes block c, generatePrimary parse memory b (table l) = .ok bytes ∧
      consumePrimary memory [] {} { owner := .primary } bytes =
        .ok (some bytes.length, block, c, sentDict parse b l) ∧ block.complete = true := by
  unfold sentDict
  unfold bundleIds at hmem
  cases hall : allCbheCompat parse b with
  | true =>
    obtain ⟨primary, -, hoff, hp, -⟩ := paired_numbers hall
    rw [if_pos rfl, generatePrimary_numbers hall]
    exact primary_read hoff hp.flags hp.values hp.length hp.last (by simp) (by simp; omega)
  | false =>
    rw [hall, if_neg Bool.false_ne_true] at hmem
    obtain ⟨primary, hoff, hflags, hvalues, hlen⟩ := eidOffsets_texts hall hl hn (by omega) hmem
    have hne : l ≠ [] := List.ne_nil_of_mem (hmem b.dest (by simp) _ List.mem_cons_self)
    rw [if_neg Bool.false_ne_true]
    exact primary_read hoff hflags hvalues hlen (fun _ => getLast_table hne) hword hmemory

theorem prepare_texts (hU : IsUri parse) :
    prepare parse b = .ok (table (texts parse b [])) := by
  unfold texts bundleIds
  cases hall : allCbheCompat parse b with
  | true => rw [prepare, if_pos hall, if_pos rfl]; rfl
  | false =>
    rw [prepare_eq hall, if_neg Bool.false_ne_true, List.append_nil]
    exact Dictionary.addEids_entries hU _ (l := []) (fun s hs => by simp at hs)

theorem clean_texts (hU : IsUri parse) (eids : List Eid) : Dictionary.Clean (texts parse b eids) :=
  Dictionary.clean_entries hU _ fun s hs => by simp at hs

theorem nodup_texts (eids : List Eid) : (texts parse b eids).Nodup :=
  Dictionary.nodup_entries _ List.nodup_nil

theorem texts_append (es fs : List Eid) :
    texts parse b (es ++ fs) = Dictionary.entries parse (texts parse b es) fs := by
  rw [texts, texts, ← List.append_assoc, Dictionary.entries_append]

theorem mem_texts {eids : List Eid} {e : Eid} (he : e ∈ bundleIds parse b ∨ e ∈ eids) :
    ∀ s ∈ Dictionary.parts parse e, s ∈ texts parse b eids := fun _ hs =>
  Dictionary.mem_entries (List.mem_append.mpr he) hs []

end

/-! ## The parsed block -/

section
variable {host : Host} {b : PrimaryFields} {earlier later : List Eid} {dict : List UInt8}
  {p : Preamble} {s : RecvBlock} {last : Bool}

/-- The pairs of a field point into the dictionary that is sent. -/
theorem extractEid_readRef (hU : IsUri host.parse) {e : Eid} (he : e ∈ s.eidList) :
    Dictionary.extractEid (sentDict host.parse b (texts host.parse b (earlier ++ s.eidList ++ later)))
      (Dictionary.offsetOf (texts host.parse b (earlier ++ s.eidList)) (e.schemeStr host.parse))
      (Dictionary.offsetOf (texts host.parse b (earlier ++ s.eidList)) (e.ssp host.parse)) =
      readRef host.parse b (earlier ++ s.eidList ++ later) e := by
  unfold sentDict readRef
  by_cases hall : allCbheCompat host.parse b = true
  · rw [if_pos hall, if_pos hall]
    rfl
  · have hmem : ∀ t ∈ Dictionary.parts host.parse e,
        t ∈ texts host.parse b (earlier ++ s.eidList) :=
      mem_texts (.inr (List.mem_append_right earlier he))
    have hgrow := Dictionary.prefix_entries host.parse later
      (texts host.parse b (earlier ++ s.eidList))
    rw [← texts_append] at hgrow
    rw [if_neg hall, if_neg hall,
      ← Dictionary.offsetOf_prefix hgrow (hmem _ List.mem_cons_self),
      ← Dictionary.offsetOf_prefix hgrow (hmem _ (List.mem_cons_of_mem _ List.mem_cons_self))]
    exact Dictionary.extractEid_restored (clean_texts hU _) (nodup_texts _)
      fun t ht => hgrow.subset (hmem t ht)

theorem length_le_encodingLens (vals : List ℕ) : vals.length ≤ encodingLens vals := by
  induction vals with
  | nil => simp [encodingLens]
  | cons v vals ih =>
    have hv := encodingLen_pos v
    simp only [encodingLens, List.map_cons, List.sum_cons, List.length_cons] at ih ⊢
    omega

theorem length_refVals (parse : List UInt8 → Option Uri) (l : List (List UInt8)) (eids : List Eid) :
    (refVals parse l eids).length = 2 * eids.length := by
  induction eids with
  | nil => rfl
  | cons e eids ih =>
    rw [refVals, List.flatMap_cons, List.length_append, ← refVals, ih]
    simp only [List.length_cons, List.length_nil]
    omega

/-- The preamble that a reader finds in a generated block. -/
def readPreamble (parse : List UInt8 → Option Uri) (dict : List UInt8) (l : List (List UInt8))
    (eids : List Eid) (flags dataLength : ℕ) : Preamble :=
  { flags := refFlags flags eids
    eidList := eids.map fun e => Dictionary.extractEid dict
      (Dictionary.offsetOf l (e.schemeStr parse)) (Dictionary.offsetOf l (e.ssp parse))
    blockLen := dataLength
    offset := 1 + encodingLen (refFlags flags eids) + fieldLen parse l eids + encodingLen dataLength }

section
variable {parse : List UInt8 → Option Uri} {l : List (List UInt8)} {eids : List Eid} {t : UInt8}
  {flags dataLength : ℕ}

theorem drop_flags (parse : List UInt8 → Option Uri) (l : List (List UInt8)) (eids : List Eid)
    (t : UInt8) (hflags : flags < 256) (dataLength : ℕ) (rest : List UInt8) :
    (preambleBytes parse l eids t flags dataLength ++ rest).drop
      (1 + encodingLen (refFlags flags eids)) =
        fieldBytes parse l eids ++ (sdnv dataLength ++ rest) := by
  have hrefs : refFlags flags eids < 2 ^ 64 := lt_trans (refFlags_lt hflags eids) (by norm_num)
  rw [← List.drop_drop, ← length_sdnv hrefs, preambleBytes, List.cons_append, List.drop_one,
    List.tail_cons, List.append_assoc, List.drop_left, List.append_assoc]

theorem readSdnv_flags (hflags : flags < 256) (rest : List UInt8) :
    readSdnv ((preambleBytes parse l eids t flags dataLength ++ rest).drop 1) =
      some (refFlags flags eids, encodingLen (refFlags flags eids)) := by
  have hrefs : refFlags flags eids < 2 ^ 64 := lt_trans (refFlags_lt hflags eids) (by norm_num)
  rw [preambleBytes, List.cons_append, List.drop_one, List.tail_cons, List.append_assoc,
    readSdnv_sdnv hrefs]

/-- If the flag for references is set for references only, the preamble is read back. -/
theorem preamble_sent (dict : List UInt8) (hlen : eids.length < 2 ^ 32)
    (hwords : Words (refVals parse l eids)) (hflags : flags < 256) (hdata : dataLength < 2 ^ 64)
    (hrefs : flags.testBit 6 = true → eids ≠ []) (rest : List UInt8) :
    preamble dict (preambleBytes parse l eids t flags dataLength ++ rest) =
      some (readPreamble parse dict l eids flags dataLength) := by
  have hfield := drop_flags parse l eids t hflags dataLength rest
  have hsix : (refFlags flags eids).testBit 6 = decide (eids ≠ []) := by
    rw [testBit_refFlags hlen]
    cases h6 : flags.testBit 6 with
    | true => rw [Bool.true_or, decide_eq_true (hrefs h6)]
    | false => simp
  have heidRefs : eidRefs dict (preambleBytes parse l eids t flags dataLength ++ rest)
      (refFlags flags eids) (1 + encodingLen (refFlags flags eids)) =
      some ((readPreamble parse dict l eids flags dataLength).eidList,
        1 + encodingLen (refFlags flags eids) + fieldLen parse l eids) := by
    rw [eidRefs, hsix, hfield]
    by_cases heids : eids = []
    · subst heids
      rfl
    · have hcount : eids.length < 2 ^ 64 := lt_trans hlen (by norm_num)
      have hvals : fieldBytes parse l eids = sdnv eids.length ++ sdnvs (refVals parse l eids) := by
        rw [fieldBytes, if_neg heids]
        rfl
      rw [if_pos (decide_eq_true heids), hvals, List.append_assoc, readSdnv_sdnv hcount,
        Option.bind_some]
      dsimp only
      have hdrop : (preambleBytes parse l eids t flags dataLength ++ rest).drop
          (1 + encodingLen (refFlags flags eids) + encodingLen eids.length) =
          sdnvs (refVals parse l eids) ++ (sdnv dataLength ++ rest) := by
        rw [← List.drop_drop, hfield, hvals, List.append_assoc, ← length_sdnv hcount, List.drop_left]
      have hfuel : eids.length <
          (preambleBytes parse l eids t flags dataLength ++ rest).length + 1 := by
        have hle := length_le_encodingLens (refVals parse l eids)
        have htotal := congrArg List.length hdrop
        rw [length_refVals] at hle
        simp only [List.length_drop, List.length_append, length_sdnvs hwords] at htotal ⊢
        omega
      rw [eidLoop_pairs hlen (fun e => (Dictionary.offsetOf l (e.schemeStr parse),
        Dictionary.offsetOf l (e.ssp parse))) eids hfuel (Nat.zero_add _) hwords hdrop]
      simp only [readPreamble, List.nil_append, fieldLen, if_neg heids, Option.some.injEq,
        Prod.mk.injEq, true_and]
      simp only [encodingLens, refVals, List.map_cons, List.sum_cons]
      omega
  have hdrop : (preambleBytes parse l eids t flags dataLength ++ rest).drop
      (1 + encodingLen (refFlags flags eids) + fieldLen parse l eids) = sdnv dataLength ++ rest := by
    rw [← List.drop_drop, hfield, ← length_fieldBytes hlen hwords, List.drop_left]
  rw [preamble, readSdnv_flags hflags, Option.bind_some]
  simp only
  rw [heidRefs, Option.bind_some]
  simp only
  rw [hdrop, readSdnv_sdnv hdata, Option.bind_some]
  rfl

/-- References take two bytes each, of which there have to be enough. -/
theorem eidLoop_bytes {dict contents : List UInt8} {count o : ℕ} {r : List Eid} (fuel : ℕ) :
    ∀ {i off : ℕ} {acc : List Eid}, i < 2 ^ 32 →
      eidLoop dict contents count fuel i off acc = some (r, o) → off + 2 * (count - i) ≤ o := by
  induction fuel with
  | zero => intro i off acc _ h; simp [eidLoop] at h
  | succ fuel ih =>
    intro i off acc hi h
    have hcount := (eidLoop_count (fuel + 1) hi h).1
    rw [eidLoop] at h
    split_ifs at h with hlt
    · obtain ⟨⟨so, n⟩, hso, h⟩ := Option.bind_eq_some_iff.mp h
      obtain ⟨⟨ss, k⟩, hss, h⟩ := Option.bind_eq_some_iff.mp h
      have hn := (readSdnv_bound hso).1
      have hk := (readSdnv_bound hss).1
      have hnext : u32 (i + 1) = i + 1 := u32_of_lt (by omega)
      rw [hnext] at h
      have hrest := ih (by omega) h
      omega
    · cases h
      omega

/-- Without the field of references the length of the data is taken for their number. -/
theorem preamble_refless (dict : List UInt8) {data : List UInt8} (hflags : flags < 256)
    (hdata : data.length < 2 ^ 64) (hsix : flags.testBit 6 = true) :
    preamble dict (preambleBytes parse l [] t flags data.length ++ data) = none := by
  have hrefs : refFlags flags [] = flags := by
    rw [refFlags, List.length_nil, u32_of_lt (by norm_num), if_neg (lt_irrefl 0)]
  have hfield := drop_flags parse l [] t hflags data.length data
  have hcontents : (preambleBytes parse l [] t flags data.length ++ data).length =
      1 + encodingLen flags + encodingLen data.length + data.length := by
    have hwords : Words (refVals parse l []) := fun v hv => by simp [refVals] at hv
    rw [List.length_append, length_preambleBytes (by simp) hwords t hflags hdata, hrefs]
    simp [fieldLen]
  rw [preamble, readSdnv_flags hflags, Option.bind_some]
  simp only [hrefs] at hfield ⊢
  rw [eidRefs, hsix, if_pos rfl, hfield, fieldBytes, if_pos rfl, List.nil_append,
    readSdnv_sdnv hdata, Option.bind_some]
  rw [Option.bind_eq_none_iff]
  rintro ⟨eids, o⟩ hloop
  have hbytes := eidLoop_bytes _ (by norm_num) hloop
  rw [Option.bind_eq_none_iff]
  rintro ⟨v, k⟩ hread
  obtain ⟨hk, hk', -⟩ := readSdnv_bound hread
  rw [List.length_drop, hcontents] at hk'
  omega

end

/-! ## Sending -/

/-- The dictionary of the outgoing bundle is one for offsets of 32 bits, and there is memory for it and
for the block. -/
structure Room (host : Host) (b : PrimaryFields) (eids : List Eid) (dataLength : ℕ) : Prop where
  data : 64 + dataLength ≤ host.memory
  word : (table (texts host.parse b eids)).length + 512 ≤ 2 ^ 32
  dict : (table (texts host.parse b eids)).length + 512 ≤ host.memory

theorem length_texts_le (host : Host) (b : PrimaryFields) (es fs : List Eid) :
    (table (texts host.parse b es)).length ≤
    (table (texts host.parse b (es ++ fs))).length := by
  obtain ⟨rest, hrest⟩ := Dictionary.prefix_entries host.parse fs
    (texts host.parse b es)
  rw [texts_append, ← hrest, table_append, List.length_append]
  exact Nat.le_add_right _ _

theorem Room.words (h : Room host b (earlier ++ s.eidList ++ later) s.dataLength) :
    Words (refVals host.parse (texts host.parse b (earlier ++ s.eidList)) s.eidList) := by
  have hle := length_texts_le host b (earlier ++ s.eidList) later
  have hword := h.word
  exact words_refVals (by omega) fun e he => mem_texts (.inr (List.mem_append_right earlier he))

theorem sentBlock_lastBlock (h : Received dict p s) {l : List (List UInt8)} {block : RecvBlock}
    (hblock : sentBlock host.parse l s last p.flags block) : block.lastBlock = .ok last := by
  obtain ⟨-, hflags, -⟩ := sentBlock_flags h hblock
  have hlen : 2 ≤ block.contents.length := by
    have hrefs := refFlags_lt (wireFlags_lt last p.flags) s.eidList
    have hpos := encodingLen_pos (refFlags (wireFlags last p.flags) s.eidList)
    rw [hblock.2, sentBytes, preambleBytes, List.length_append, List.length_cons, List.length_append,
      length_sdnv (lt_trans hrefs (by norm_num))]
    omega
  rw [RecvBlock.lastBlock, if_neg (by omega), hflags, Except.map, testBit_refFlags h.length_eidList,
    testBit_wireFlags_three]
  simp

theorem sentBlock_finalize (h : Received dict p s) (hf : Forwarded b s) (hn : NotArray s.contents)
    {l : List (List UInt8)} {block : RecvBlock}
    (hblock : sentBlock host.parse l s last p.flags block) : finalize b block = .ok () := by
  obtain ⟨flags, hflags, -, -, hreport⟩ := hf
  obtain rfl : p.flags = flags := Except.ok.inj ((h.blockFlags_eq (h.type_ne hn)).symm.trans hflags)
  obtain ⟨htype, hsent, -⟩ := sentBlock_flags h hblock
  unfold finalize
  by_cases hadmin : b.isAdmin = true
  · have hone : (refFlags (wireFlags last p.flags) s.eidList).testBit 1 = false := by
      rw [testBit_refFlags h.length_eidList, testBit_wireFlags last p.flags (by norm_num) (by norm_num),
        hreport hadmin (h.type_ne hn)]
      simp
    rw [if_pos ⟨hadmin, htype⟩, hsent]
    exact require_of hone
  · rw [if_neg fun hc => hadmin hc.1]
    rfl

/-- The bundle is sent exactly if the preamble has room, and its dictionary arrives. -/
theorem transmit_eq (last : Bool) (hU : IsUri host.parse) (h : Received dict p s) (hf : Forwarded b s)
    (hn : NotArray s.contents) (hroom : Room host b (earlier ++ s.eidList ++ later) s.dataLength) :
    (64 < preambleLen host.parse b earlier s last p.flags ∧
        ∃ e, transmit host b earlier later s last = .error e) ∨
      (preambleLen host.parse b earlier s last p.flags ≤ 64 ∧ ∃ primary block pblock c,
        transmit host b earlier later s last = .ok (primary, block) ∧
        sentBlock host.parse (texts host.parse b (earlier ++ s.eidList)) s last p.flags block ∧
        consumePrimary host.memory [] {} { owner := .primary } primary =
          .ok (some primary.length, pblock, c,
            sentDict host.parse b (texts host.parse b (earlier ++ s.eidList ++ later))) ∧
        pblock.complete = true) := by
  have hearlier := Dictionary.addEids_entries hU earlier (clean_texts (b := b) hU [])
  have hgenerate := generate_eq last hU h hf hn hroom.data (clean_texts (b := b) hU earlier)
    (nodup_texts earlier) (by rw [← texts_append]; exact hroom.words)
  have hlater := Dictionary.addEids_entries hU later (clean_texts (b := b) hU (earlier ++ s.eidList))
  rw [← texts_append, List.nil_append] at hearlier
  rw [← texts_append] at hgenerate hlater
  rw [transmit, prepare_texts hU]
  simp only [bind, Except.bind, hearlier]
  rcases hgenerate with ⟨hlong, e, he⟩ | ⟨hfits, block, hgen, hblock⟩
  · rw [he]
    exact .inl ⟨hlong, e, rfl⟩
  · obtain ⟨primary, pblock, c, hprimary, hconsume, hcomplete⟩ := primary_carries (b := b)
      (clean_texts hU _) (nodup_texts (earlier ++ s.eidList ++ later))
      (fun e he => mem_texts (.inl he)) hroom.word hroom.dict
    refine .inr ⟨hfits, primary, block, pblock, c, ?_, hblock, hconsume, hcomplete⟩
    rw [hgen]
    simp only [sentBlock_lastBlock h hblock, hlater, hprimary,
      sentBlock_finalize h hf hn hblock]
    rfl

/-! ## Receiving -/

/-- The type byte is that of an unknown block again. -/
theorem sentBlock_processor (h : Received dict p s) {l : List (List UInt8)} {block : RecvBlock}
    (hblock : sentBlock host.parse l s last p.flags block) :
    findProcessor (block.contents.headD 0) = .unknown := by
  rw [hblock.2, sentBytes, preambleBytes]
  exact h.unknown

/-- The preamble of it for a reader with a dictionary. -/
def sentPreamble (parse : List UInt8 → Option Uri) (dict : List UInt8) (l : List (List UInt8))
    (s : RecvBlock) (last : Bool) (flags : ℕ) : Preamble :=
  readPreamble parse dict l s.eidList (wireFlags last flags) s.dataLength

def readBlock (parse : List UInt8 → Option Uri) (dict : List UInt8) (l : List (List UInt8))
    (s : RecvBlock) (last : Bool) (flags : ℕ) : RecvBlock :=
  RecvBlock.upTo .unknown (sentPreamble parse dict l s last flags) (sentBytes parse l s last flags)

/-- The generated bytes are an image of the block that is read. -/
theorem image_sent (last : Bool) (h : Received dict p s)
    (hroom : Room host b (earlier ++ s.eidList ++ later) s.dataLength)
    (hfits : preambleLen host.parse b earlier s last p.flags ≤ 64)
    (hrefs : p.flags.testBit 6 = true → s.eidList ≠ []) (dict' : List UInt8) :
    Image host.memory dict'
      (sentPreamble host.parse dict' (texts host.parse b (earlier ++ s.eidList)) s last p.flags)
      (sentBytes host.parse (texts host.parse b (earlier ++ s.eidList)) s last p.flags) := by
  have hlen := length_preambleBytes (l := texts host.parse b (earlier ++ s.eidList))
    h.length_eidList hroom.words (s.contents.headD 0) (wireFlags_lt last p.flags) h.dataLength_lt
  have hsix : (wireFlags last p.flags).testBit 6 = true → s.eidList ≠ [] := by
    rw [testBit_wireFlags last p.flags (by norm_num) (by norm_num)]
    exact fun h6 => hrefs (Bool.and_eq_true_iff.mp h6).2
  have hdata := hroom.data
  have htotal : (sentBytes host.parse (texts host.parse b (earlier ++ s.eidList)) s last
      p.flags).length = preambleLen host.parse b earlier s last p.flags + s.dataLength := by
    rw [sentBytes, List.length_append, hlen, h.length_data]
    rfl
  exact ⟨⟨preamble_sent dict' h.length_eidList hroom.words (wireFlags_lt last p.flags)
    h.dataLength_lt hsix s.data, hfits⟩, htotal, fun _ => by omega, host.memory_lt⟩

/-- The generated bytes are consumed up to their end, with anything behind them. -/
theorem consumeOwner_sent (last : Bool) (h : Received dict p s)
    (hroom : Room host b (earlier ++ s.eidList ++ later) s.dataLength)
    (hfits : preambleLen host.parse b earlier s last p.flags ≤ 64)
    (hrefs : p.flags.testBit 6 = true → s.eidList ≠ []) (index : ℕ) {c : RecvBundle}
    {dict' : List UInt8} (hc : c.dict = dict') (rest : List UInt8)
    (hempty : rest ≠ [] → s.dataLength = 0 →
      preambleLen host.parse b earlier s last p.flags < 64) :
    consumeOwner host index c { owner := .unknown }
        (sentBytes host.parse (texts host.parse b (earlier ++ s.eidList)) s last p.flags ++ rest) =
      .ok (some (sentBytes host.parse (texts host.parse b (earlier ++ s.eidList)) s last
          p.flags).length,
        readBlock host.parse dict' (texts host.parse b (earlier ++ s.eidList)) s last p.flags, c) ∧
      (readBlock host.parse dict' (texts host.parse b (earlier ++ s.eidList)) s last
        p.flags).complete = true := by
  have himage := image_sent last h hroom hfits hrefs dict'
  rw [readBlock]
  generalize sentBytes host.parse (texts host.parse b (earlier ++ s.eidList)) s last p.flags = z
    at himage ⊢
  have hlen := himage.length_eq
  have hthree := (preamble_bound himage.parsed).1
  have hnext : Next (sentPreamble host.parse dict' (texts host.parse b (earlier ++ s.eidList)) s last
      p.flags) z [] z rest :=
    ⟨by rw [List.nil_append], by rw [List.length_nil]; omega, fun _ => List.nil_append z, hempty⟩
  have hblock := consumeBlock_upTo .unknown himage hnext host.static_le
  rw [List.nil_append, RecvBlock.upTo_of_lt .unknown (by rw [List.length_nil]; omega)] at hblock
  refine ⟨?_, ?_⟩
  · change consumeUnknown host c { owner := .unknown } (z ++ rest) = _
    rw [consumeUnknown, hc, hblock]
    rfl
  · rw [RecvBlock.upTo_of_le .unknown (by omega)]
    exact decide_eq_true (by omega)

/-- What is read of the block that was sent. -/
theorem sameBlock_iff (hU : IsUri host.parse) (h : Received dict p s)
    (hroom : Room host b (earlier ++ s.eidList ++ later) s.dataLength)
    (hfits : preambleLen host.parse b earlier s last p.flags ≤ 64)
    (hrefs : p.flags.testBit 6 = true → s.eidList ≠ []) :
    SameBlock host.parse s (readBlock host.parse
        (sentDict host.parse b (texts host.parse b (earlier ++ s.eidList ++ later)))
        (texts host.parse b (earlier ++ s.eidList)) s last p.flags) ↔
      p.flags < 256 ∧
        ∀ e ∈ s.eidList, SameRef host.parse e (readRef host.parse b (earlier ++ s.eidList ++ later) e) := by
  have himage := image_sent last h hroom hfits hrefs
    (sentDict host.parse b (texts host.parse b (earlier ++ s.eidList ++ later)))
  have hlen := length_preambleBytes (l := texts host.parse b (earlier ++ s.eidList))
    h.length_eidList hroom.words (s.contents.headD 0) (wireFlags_lt last p.flags) h.dataLength_lt
  have htotal := himage.length_eq
  have heids : (sentPreamble host.parse
      (sentDict host.parse b (texts host.parse b (earlier ++ s.eidList ++ later)))
      (texts host.parse b (earlier ++ s.eidList)) s last p.flags).eidList =
      s.eidList.map (readRef host.parse b (earlier ++ s.eidList ++ later)) :=
    List.map_congr_left fun e he => extractEid_readRef hU he
  have hflags : flagsOf (sentBytes host.parse (texts host.parse b (earlier ++ s.eidList)) s last
      p.flags) = some (refFlags (wireFlags last p.flags) s.eidList) := by
    rw [flagsOf, sentBytes, readSdnv_flags (wireFlags_lt last p.flags)]
    rfl
  rw [readBlock, RecvBlock.upTo_of_le .unknown (by omega)]
  constructor
  · intro hsame
    refine ⟨?_, fun e he => ?_⟩
    · obtain ⟨f, g, hf, hg, hbits⟩ := hsame.flags
      obtain rfl : p.flags = f := Option.some.inj (h.flagsOf_eq.symm.trans hf)
      obtain rfl := Option.some.inj (hflags.symm.trans hg)
      have h256 : (256 : ℕ) = 2 ^ 8 := rfl
      rw [h256]
      refine Nat.lt_pow_two_of_testBit _ fun i hi => ?_
      rw [← hbits i (by omega) (by omega), testBit_refFlags h.length_eidList,
        testBit_wireFlags last p.flags (by omega) (by omega), decide_eq_false (by omega),
        decide_eq_false (p := i = 6) (by omega)]
      simp
    · have hall := hsame.eids
      simp only [heids, List.forall₂_map_right_iff] at hall
      exact List.forall₂_same.mp hall e he
  · rintro ⟨hlt, hrefsSame⟩
    refine ⟨?_, ?_, ?_, ⟨p.flags, _, h.flagsOf_eq, hflags, fun i h3 h5 => ?_⟩⟩
    · obtain ⟨t, u, rest, hc⟩ := h.exists_bytes
      rw [sentBytes, preambleBytes, hc]
      rfl
    · rw [RecvBlock.data]
      simp only [sentPreamble, readPreamble, sentBytes]
      rw [← hlen, List.drop_left, ← h.length_data, List.take_length]
    · simp only [heids, List.forall₂_map_right_iff]
      exact List.forall₂_same.mpr hrefsSame
    · rw [testBit_refFlags h.length_eidList, testBit_wireFlags last p.flags h3 h5]
      by_cases h8 : i < 8
      · rw [decide_eq_true h8, Bool.true_and]
        by_cases h6 : i = 6
        · subst h6
          cases hsix : p.flags.testBit 6 with
          | true => rfl
          | false => rw [h.eidList_nil hsix]; rfl
        · rw [decide_eq_false (p := i = 6) h6, Bool.and_false, Bool.or_false]
      · have hbig : p.flags.testBit i = false :=
          Nat.testBit_lt_two_pow (lt_of_lt_of_le hlt (Nat.pow_le_pow_right (n := 2) (by norm_num)
            (Nat.le_of_not_lt h8)))
        rw [hbig, Bool.and_false, Bool.false_or, decide_eq_false (p := i = 6) (by omega), Bool.and_false]

theorem consumeOwner_unknown {index : ℕ} {c : RecvBundle} {data : List UInt8} {v : Option ℕ}
    {out : RecvBlock} {c' : RecvBundle}
    (hc : consumeOwner host index c { owner := .unknown } data = .ok (v, out, c')) :
    consumeBlock host.memory c.dict { owner := .unknown } data = .ok (v, out) := by
  obtain ⟨⟨cc, block⟩, hblock, hpure⟩ := of_bind_ok (x := consumeBlock host.memory c.dict
    { owner := .unknown } data) hc
  cases hpure
  exact hblock

theorem receiving_unknown (host : Host) (c : RecvBundle) (data : List UInt8) :
    Receiving host c { owner := .unknown } data :=
  ready_new .unknown (fun ho => by cases ho) fun ho => by cases ho

theorem header_unknown (dict data : List UInt8) : ({ owner := .unknown } : RecvBlock).header dict data =
    (preamble dict (data.take 64)).map fun p => (p.offset, p.blockLen) := rfl

/-- Nothing is complete without a preamble. -/
theorem complete_preamble {index : ℕ} {c : RecvBundle} {data : List UInt8} (hd : data ≠ [])
    {v : Option ℕ} {out : RecvBlock} {c' : RecvBundle}
    (hc : consumeOwner host index c { owner := .unknown } data = .ok (v, out, c'))
    (hv : v.isSome) (hcomplete : out.complete = true) : preamble c.dict data ≠ none := by
  have hspec := consumeBlock_spec (receiving_unknown host c data) hd (by simp)
  rw [consumeOwner_unknown hc] at hspec
  cases hspec with
  | reject => cases hv
  | waits _ _ _ hready => exact absurd (hready.incomplete.symm.trans hcomplete) (by decide)
  | completes _ _ hfits hdone =>
    have hheader := hdone.header
    rw [header_unknown] at hheader
    obtain ⟨q, hq, -⟩ := Option.map_eq_some_iff.mp hheader
    have hwhole := preamble_append (data.drop 64) hq
    rw [List.take_append_drop] at hwhole
    rw [hwhole]
    exact Option.some_ne_none q

/-- A preamble that fills the buffer leaves no room for bytes behind a block without data. -/
theorem consumeOwner_full {index : ℕ} {c : RecvBundle} {z : List UInt8} {q : Preamble}
    (hq : preamble c.dict z = some q) (hoff : q.offset = 64) (hlen : q.blockLen = 0)
    {v : Option ℕ × RecvBlock × RecvBundle} :
    consumeOwner host index c { owner := .unknown } (z ++ [0]) ≠ .ok v := by
  intro hc
  obtain ⟨v, out, c'⟩ := v
  have hbound := (preamble_bound hq).2.1
  have hheader : ({ owner := .unknown } : RecvBlock).header c.dict (z ++ [0]) = some (64, 0) := by
    rw [header_unknown, preamble_take (preamble_append [0] hq) hoff.le, Option.map_some, hoff, hlen]
  have hno : ¬ BlockFits host c { owner := .unknown } (z ++ [0]) := by
    intro hfits
    have hlt := hfits.room 64 hheader (by
      simp only [List.nil_append, List.length_append, List.length_singleton]
      omega)
    exact absurd hlt (by decide)
  have hspec := consumeBlock_spec (receiving_unknown host c (z ++ [0])) (by simp) (by simp)
  rw [consumeOwner_unknown hc] at hspec
  cases hspec with
  | reject _ hfits => exact hno hfits
  | waits _ hfits => exact hno hfits
  | completes _ _ hfits => exact hno hfits

/-- The primary block is consumed into a new bundle with its dictionary. -/
theorem consumePrimaryBlock_dict {nodata : Bool} {primary : List UInt8} {pblock : RecvBlock}
    {fields : PrimaryFields} {d : List UInt8}
    (hc : consumePrimary host.memory [] {} { owner := .primary } primary =
      .ok (some primary.length, pblock, fields, d)) :
    consumePrimaryBlock host { nodata := nodata } { owner := .primary } primary =
      .ok (some primary.length, pblock, { nodata := nodata, fields := fields, dict := d }) := by
  rw [consumePrimaryBlock, hc]
  rfl

/-! ## Forwarding -/

/-- A block that keeps its type was not taken for one of version 7. -/
theorem notArray_of_transmit (h : Received dict p s) (hf : Forwarded b s) {primary : List UInt8}
    {block : RecvBlock} (hsend : transmit host b earlier later s last = .ok (primary, block))
    (hhead : block.contents.head? = s.contents.head?) : NotArray s.contents := by
  by_contra hn
  obtain ⟨d₁, -, hsend⟩ := of_bind_ok hsend
  obtain ⟨d₂, -, hsend⟩ := of_bind_ok hsend
  obtain ⟨⟨block', d₃⟩, hgen, hsend⟩ := of_bind_ok hsend
  obtain ⟨flagged, -, hsend⟩ := of_bind_ok hsend
  obtain ⟨_, -, hsend⟩ := of_bind_ok hsend
  obtain ⟨d₄, -, hsend⟩ := of_bind_ok hsend
  obtain ⟨bytes, -, hsend⟩ := of_bind_ok hsend
  obtain ⟨_, -, hsend⟩ := of_bind_ok hsend
  cases hsend
  exact h.type_array hf hn (hhead.symm.trans (generate_head hf hgen))

theorem keeps_of_faithful (hU : IsUri host.parse) (h : Received dict p s) (hf : Forwarded b s)
    (hroom : Room host b (earlier ++ s.eidList ++ later) s.dataLength)
    (hfaithful : Faithful host b earlier later s last) :
    Keeps host.parse b earlier later s p.flags last := by
  obtain ⟨primary, block, hsend, hhead, hread⟩ := hfaithful
  have hn := notArray_of_transmit h hf hsend hhead
  rcases transmit_eq last hU h hf hn hroom with
    ⟨-, e, he⟩ | ⟨hfits, primary', block', pblock', fields, hsend', hblock, hprimary, -⟩
  · rw [he] at hsend
    cases hsend
  have hpair := Except.ok.inj (hsend'.symm.trans hsend)
  rw [Prod.mk.injEq] at hpair
  obtain ⟨rfl, rfl⟩ := hpair
  obtain ⟨recv, pblock, hconsume, -, hparsed⟩ := hread false
  rw [consumePrimaryBlock_dict hprimary] at hconsume
  rw [Except.ok.injEq, Prod.mk.injEq, Prod.mk.injEq] at hconsume
  obtain ⟨-, -, hrecv⟩ := hconsume
  have hdict : recv.dict =
      sentDict host.parse b (texts host.parse b (earlier ++ s.eidList ++ later)) := by
    rw [← hrecv]
  rw [sentBlock_processor h hblock, hblock.2] at hparsed
  obtain ⟨out, hout, hcomplete, hsame⟩ := hparsed 0 recv [] rfl fun _ => rfl
  have hrefs : p.flags.testBit 6 = true → s.eidList ≠ [] := by
    intro h6 heids
    have hsix : (wireFlags last p.flags).testBit 6 = true := by
      rw [testBit_wireFlags last p.flags (by norm_num) (by norm_num), h6]
      rfl
    have hlen := h.length_data
    have hlt := h.dataLength_lt
    rw [← hlen] at hlt
    apply complete_preamble (by simp [sentBytes, preambleBytes]) hout rfl hcomplete
    rw [List.append_nil, sentBytes, heids, ← hlen]
    exact preamble_refless _ (wireFlags_lt last p.flags) hlt hsix
  rw [(consumeOwner_sent last h hroom hfits hrefs 0 hdict []
    fun hne => absurd rfl hne).1] at hout
  rw [Except.ok.injEq, Prod.mk.injEq, Prod.mk.injEq] at hout
  rw [← hout.2.1] at hsame
  obtain ⟨hlt, heids⟩ := (sameBlock_iff hU h hroom hfits hrefs).mp hsame
  refine ⟨hn, hlt, hrefs, hfits, fun hlast h0 => ?_, heids⟩
  by_contra hfull
  obtain ⟨out', hout', -⟩ := hparsed 0 recv [0] rfl fun hl => by rw [hlast] at hl; cases hl
  have himage := image_sent last h hroom hfits hrefs recv.dict
  exact consumeOwner_full himage.parsed (le_antisymm hfits (Nat.le_of_not_lt hfull)) h0 hout'

theorem faithful_of_keeps (hU : IsUri host.parse) (h : Received dict p s) (hf : Forwarded b s)
    (hroom : Room host b (earlier ++ s.eidList ++ later) s.dataLength)
    (hk : Keeps host.parse b earlier later s p.flags last) :
    Faithful host b earlier later s last := by
  rcases transmit_eq last hU h hf hk.notArray hroom with
    ⟨hlong, -⟩ | ⟨hfits, primary, block, pblock, fields, hsend, hblock, hprimary, hcomplete⟩
  · exact absurd hk.fits (Nat.not_le.mpr hlong)
  refine ⟨primary, block, hsend, ?_, fun nodata =>
    ⟨_, pblock, consumePrimaryBlock_dict hprimary, hcomplete, fun index c rest hc hrest => ?_⟩⟩
  · obtain ⟨t, u, rest, hcontents⟩ := h.exists_bytes
    rw [hblock.2, sentBytes, hcontents]
    rfl
  · obtain ⟨hread, hdone⟩ := consumeOwner_sent last h hroom hfits hk.refs
      index hc rest fun hne h0 => hk.room (Bool.eq_false_iff.mpr fun hlast => hne (hrest hlast)) h0
    rw [sentBlock_processor h hblock, hblock.2]
    exact ⟨_, hread, hdone, (sameBlock_iff hU h hroom hfits hk.refs).mpr ⟨hk.flags_lt, hk.eids⟩⟩

/-- An unknown block is forwarded as it was received exactly if its first bytes do not look like
version 7, its flags fit a byte and announce references only if there are any, the preamble has room,
and its references are read back as the ids they are. -/
theorem unknown_faithful_iff (hU : IsUri host.parse) (h : Received dict p s) (hf : Forwarded b s)
    (hroom : Room host b (earlier ++ s.eidList ++ later) s.dataLength) :
    Faithful host b earlier later s last ↔ Keeps host.parse b earlier later s p.flags last :=
  ⟨keeps_of_faithful hU h hf hroom, faithful_of_keeps hU h hf hroom⟩

end

/-! ## A block with a reference -/

def refDict : List UInt8 := text "dtn" ++ [0] ++ text "//a" ++ [0]

def refPreamble : Preamble :=
  { flags := 0x40, eidList := [⟨text "dtn://a"⟩], blockLen := 2, offset := 6 }

/-- A block of type 0x21 with two bytes that refers to `dtn://a`. -/
def refBlock : RecvBlock :=
  RecvBlock.upTo .unknown refPreamble [0x21, 0x40, 1, 0, 4, 2, 0x68, 0x69]

theorem refBlock_received : Received refDict refPreamble refBlock :=
  received_upTo 1024 ⟨⟨by decide +kernel, by decide⟩, rfl, fun _ => by decide, by norm_num⟩
    rfl

theorem refBlock_forwarded (b : PrimaryFields) : Forwarded b refBlock :=
  ⟨0x40, by decide +kernel, by decide, by decide, fun _ _ => by decide⟩

theorem refBlock_eidList : refBlock.eidList = [⟨text "dtn://a"⟩] := rfl

/-- The reference is kept beside ids of the scheme dtn. -/
theorem refBlock_faithful : Faithful smallHost dtnFields [] [] refBlock false :=
  (unknown_faithful_iff isUri_splitUri refBlock_received (refBlock_forwarded dtnFields)
    ⟨by decide +kernel, by decide +kernel, by decide +kernel⟩).mpr
    { notArray := by rintro (h | h) <;> cases h
      flags_lt := by decide
      refs := fun _ => List.cons_ne_nil _ _
      fits := by decide +kernel
      room := fun _ h => by cases h
      eids := by
        intro e he
        rw [refBlock_eidList, List.mem_singleton] at he
        subst he
        exact .inl (by decide +kernel) }

/-- Beside ids that are written as numbers there is no dictionary, and it is read as the null id. -/
theorem refBlock_lost : ¬ ∀ (host : Host) (b : PrimaryFields) (earlier later : List Eid)
    (dict : List UInt8) (p : Preamble) (s : RecvBlock) (last : Bool), IsUri host.parse →
      Received dict p s → Forwarded b s → Room host b (earlier ++ s.eidList ++ later) s.dataLength →
        Faithful host b earlier later s last := by
  intro hall
  have hroom : Room smallHost ipnFields ([] ++ refBlock.eidList ++ []) refBlock.dataLength :=
    ⟨by decide +kernel, by decide +kernel, by decide +kernel⟩
  have hkeeps := keeps_of_faithful isUri_splitUri refBlock_received (refBlock_forwarded ipnFields) hroom
    (hall smallHost ipnFields [] [] refDict refPreamble refBlock false isUri_splitUri
      refBlock_received (refBlock_forwarded ipnFields) hroom)
  have href := hkeeps.eids ⟨text "dtn://a"⟩ List.mem_cons_self
  have hread : readRef smallHost.parse ipnFields ([] ++ refBlock.eidList ++ []) ⟨text "dtn://a"⟩ =
      makeEidNull := by decide +kernel
  rw [hread] at href
  rcases href with heq | ⟨u, hu, hnull⟩
  · exact absurd heq (by decide)
  · have hother : (⟨text "dtn://a"⟩ : Eid).uri? splitUri ≠ makeEidNull.uri? splitUri := by
      decide +kernel
    exact hother (hu.trans hnull.symm)

end Dtnme.Bundling.Bp6Unknown
