import Dtnme.Ltp.Wire

/-! # Round trip of the segment codec

A segment that this code builds comes back from its bytes exactly when every encoded field
fits the room that `Encode_Field` allows, seven bits a byte of the C type, when a data
segment has a payload and is not a green end of block, and when the total length survives
the cast to `int`. For the converse the decoder must read at least the bytes that the full
encoding of the fields takes. A dropped field leaves the packet shorter than that, and then
the decoder depends on what lies behind the packet.
-/

namespace Dtnme.Ltp
open Library Bundling

variable {mem : ℕ → UInt8} {length stop c val : ℕ} {rest : List UInt8}

/-! ## Fields -/

theorem encodeField_of_le {size : ℕ} (h : encodingLen val ≤ size) :
    encodeField size val = encodeLoop maxLength 0 val [] := by
  simp [encodeField, encode, not_lt.mpr h]

theorem encodeField_of_lt {size : ℕ} (h : size < encodingLen val) : encodeField size val = [] := by
  simp [encodeField, encode, h]

/-- A field is never longer than its encoding, and shorter when it does not fit. -/
theorem length_encodeField {size : ℕ} (h64 : val < 2 ^ 64) (hsize : 1 ≤ size) :
    (encodeField size val).length ≤ encodingLen val ∧
      (¬ val < 128 ^ size → (encodeField size val).length < encodingLen val) := by
  have hpos := encodingLen_pos val
  have hiff := encodingLen_le_iff h64 hsize
  rcases Nat.lt_or_ge size (encodingLen val) with hlt | hge
  · rw [encodeField_of_lt hlt, List.length_nil]
    exact ⟨by omega, fun _ => by omega⟩
  · rw [encodeField_of_le hge, length_encodeLoop h64]
    exact ⟨le_rfl, fun hno => absurd (hiff.mp hge) hno⟩

theorem length_encodeField64 (h64 : val < 2 ^ 64) :
    (encodeField64 val).length ≤ encodingLen val ∧
      (¬ val < 2 ^ 56 → (encodeField64 val).length < encodingLen val) :=
  length_encodeField h64 (by norm_num)

theorem length_encodeField32 (h32 : val < 2 ^ 32) :
    (encodeField32 val).length ≤ encodingLen val ∧
      (¬ val < 2 ^ 28 → (encodeField32 val).length < encodingLen val) :=
  length_encodeField (by omega) (by norm_num)

/-- The bytes from the current one up to an address. -/
def Stream (mem : ℕ → UInt8) (stop c : ℕ) (l : List UInt8) : Prop :=
  Holds mem c l ∧ c + l.length = stop

theorem decode_stream {size : ℕ} (hsize : 1 ≤ size) (hlen : length < 2 ^ 64) (hstop : stop ≤ length)
    (h64 : val < 2 ^ 64) (hfit : val < 128 ^ size) (hs : Stream mem stop c (encodeField size val ++ rest)) :
    (decode mem c (u64Sub length c)).result = some (val, encodingLen val) ∧
      Stream mem stop (c + encodingLen val) rest := by
  have hle : encodingLen val ≤ size := (encodingLen_le_iff h64 hsize).mpr hfit
  obtain ⟨hmem, htotal⟩ := hs
  rw [encodeField_of_le hle, holds_append, length_encodeLoop h64] at hmem
  rw [encodeField_of_le hle, List.length_append, length_encodeLoop h64] at htotal
  refine ⟨decode_encode h64 hmem.1 ?_, hmem.2, by omega⟩
  rw [u64Sub_of_le hlen (by omega)]
  omega

theorem decodeField_stream (hlen : length < 2 ^ 64) (hstop : stop ≤ length) (hfit : val < 2 ^ 56)
    (hs : Stream mem stop c (encodeField64 val ++ rest)) :
    ∃ c', (decodeField mem length c).result = some (val, c') ∧ Stream mem stop c' rest := by
  obtain ⟨hd, hs'⟩ := decode_stream (by norm_num) hlen hstop (by omega)
    (lt_of_lt_of_le hfit (by norm_num)) hs
  exact ⟨_, by simp [decodeField, hd], hs'⟩

theorem decodeField32_stream (hlen : length < 2 ^ 64) (hstop : stop ≤ length) (hfit : val < 2 ^ 28)
    (hs : Stream mem stop c (encodeField32 val ++ rest)) :
    ∃ c', (decodeField32 mem length c).result = some (val, c') ∧ Stream mem stop c' rest := by
  obtain ⟨hd, hs'⟩ := decode_stream (by norm_num) hlen hstop (by omega)
    (lt_of_lt_of_le hfit (by norm_num)) hs
  have hd' := decode32_eq_some.mpr ⟨hd, lt_of_lt_of_le hfit (by norm_num)⟩
  exact ⟨_, by simp [decodeField32, hd'], hs'⟩

theorem peek_stream {b : UInt8} (hs : Stream mem stop c (b :: rest)) :
    (peek mem c).result = some b ∧ Stream mem stop (c + 1) rest := by
  obtain ⟨⟨hb, hrest⟩, htotal⟩ := hs
  refine ⟨by simp [peek, hb], hrest, ?_⟩
  rw [List.length_cons] at htotal
  omega

theorem copyBytes_stream (hs : Stream mem stop c rest) : copyBytes mem c rest.length = rest := by
  obtain ⟨hmem, -⟩ := hs
  unfold copyBytes
  induction rest generalizing c with
  | nil => rfl
  | cons b rest ih =>
    obtain ⟨hb, hmem⟩ := hmem
    rw [List.length_cons, List.range_succ_eq_map, List.map_cons, Nat.add_zero, hb, List.map_map]
    congr 1
    conv_rhs => rw [← ih hmem]
    refine List.map_congr_left fun i _ => ?_
    simp only [Function.comp, Nat.succ_eq_add_one]
    congr 1
    omega

/-! ## Headers -/

theorem parseBuffer_stream {flags : ℕ} {seg : LTPSegment} (hlen : length < 2 ^ 64)
    (hstop : stop ≤ length) (hflags : flags < 16) (hengine : seg.engineId < 2 ^ 56) (hsession : seg.sessionId < 2 ^ 56)
    (hs : Stream mem stop 0 (createLtpHeader flags seg ++ rest)) :
    ∃ c, (parseBuffer mem length).result =
        some ⟨flagsOf flags { engineId := seg.engineId, sessionId := seg.sessionId }, c, true⟩ ∧
      Stream mem stop c rest := by
  simp only [createLtpHeader, List.cons_append, List.append_assoc, List.nil_append] at hs
  obtain ⟨hfirst, hs⟩ := peek_stream hs
  rw [Nat.zero_add] at hs
  obtain ⟨c₁, hd₁, hs⟩ := decodeField_stream hlen hstop hengine hs
  obtain ⟨c₂, hd₂, hs⟩ := decodeField_stream hlen hstop hsession hs
  obtain ⟨hext, hs⟩ := peek_stream hs
  have hmod : (UInt8.ofNat flags).toNat % 16 = flags := by
    rw [UInt8.toNat_ofNat']
    omega
  have hle : c₂ + 1 ≤ length := by
    have := hs.2
    omega
  refine ⟨c₂ + 1, ?_, hs⟩
  have hnone : (parseExtensions mem length ((0 : UInt8).toNat / 16)
      { currentByte := c₂ + 1 }).result = some { currentByte := c₂ + 1 } := rfl
  simp only [parseBuffer, Logged.result_bind, Logged.result_pure, Option.bind_some, hfirst, hd₁,
    hd₂, hext, hnone, hmod, hle, decide_true]

/-! ## What is built and what should arrive -/

/-- The two ids that every segment carries. -/
structure IdsBuilt (seg : LTPSegment) : Prop where
  engine : seg.engineId < 2 ^ 64
  session : seg.sessionId < 2 ^ 64

/-- Data segments as `check_send_segment` sets them up. -/
structure DataBuilt (ds : LTPDataSegment) : Prop extends IdsBuilt ds.toLTPSegment where
  type : ds.segmentType = .ds
  service : ds.clientServiceId < 2 ^ 32
  checkpoint : ds.checkpointId < 2 ^ 64
  serial : ds.serialNumber < 2 ^ 64
  offset : ds.offset < 2 ^ 64
  length : ds.payloadLength = ds.payload.length
  size : ds.payloadLength < 2 ^ 64
  start : ds.startByte = ds.offset
  stop : ds.stopByte = u64Sub (u64 (ds.offset + ds.payloadLength)) 1
  color : ds.redGreen = .red ∨ ds.redGreen = .green
  red : ds.redGreen = .red → ds.isGreenEndofblock = false ∧
    (ds.isRedEndofblock = true → ds.isCheckpoint = true)
  green : ds.redGreen = .green → ds.isRedEndofblock = false ∧ ds.isCheckpoint = false
  plain : ds.isCheckpoint = false → ds.checkpointId = 0 ∧ ds.serialNumber = 0

/-- Report segments: any claim map at or above the lower bound, keyed by offset. -/
structure ReportBuilt (rs : LTPReportSegment) : Prop extends IdsBuilt rs.toLTPSegment where
  serial : rs.serialNumber < 2 ^ 64
  checkpoint : rs.checkpointId < 2 ^ 64
  upper : rs.upperBounds < 2 ^ 64
  lower : rs.lowerBounds < 2 ^ 64
  count : rs.claimCount = rs.claims.size
  few : rs.claims.size < 2 ^ 64
  keyed : ∀ k rc, rs.claims.find? k = some rc → rc.offset = k
  claim : ∀ k rc, rs.claims.find? k = some rc →
    rs.lowerBounds ≤ rc.offset ∧ rc.offset < 2 ^ 64 ∧ rc.length < 2 ^ 64

def WellBuilt : WireSegment → Prop
  | .data ds => DataBuilt ds
  | .report rs => ReportBuilt rs
  | .reportAck seg => IdsBuilt seg ∧ seg.serialNumber < 2 ^ 64
  | .cancel cs => IdsBuilt cs.toLTPSegment ∧ (cs.segmentType = .csBs ∨ cs.segmentType = .csBr) ∧
      cs.reasonCode < 256
  | .cancelAck seg => IdsBuilt seg ∧ (seg.segmentType = .casBs ∨ seg.segmentType = .casBr)

/-- A claim as it travels, with its offset relative to the lower bound. -/
def LTPReportClaim.relative (lowerBounds : ℕ) (rc : LTPReportClaim) : LTPReportClaim :=
  ⟨rc.offset - lowerBounds, rc.length⟩

/-- The claims keyed by their relative offsets. -/
def relativeClaims (lowerBounds : ℕ) (claims : List LTPReportClaim) :
    OrdMap ℕ LTPReportClaim :=
  claims.foldl (fun m rc => m.insert (rc.offset - lowerBounds) (rc.relative lowerBounds)) .empty

/-- The segment that should come out of the decoder: the same type and field values, without
what only the sending side keeps. -/
def arrived : WireSegment → WireSegment
  | .data ds => .data { ds with isDeleted := false, retransRetries := 0, queuedToSend := false }
  | .report rs => .report
      { engineId := rs.engineId, sessionId := rs.sessionId, segmentType := .rs
        checkpointId := rs.checkpointId, serialNumber := rs.serialNumber
        lowerBounds := rs.lowerBounds, upperBounds := rs.upperBounds, claimCount := rs.claimCount
        claimedBytes := rs.claims.values.foldl (fun n rc => u64 (n + rc.length)) 0
        claims := relativeClaims rs.lowerBounds rs.claims.values }
  | .reportAck seg => .reportAck
      { engineId := seg.engineId, sessionId := seg.sessionId, segmentType := .ras
        serialNumber := seg.serialNumber }
  | .cancel cs => .cancel
      { engineId := cs.engineId, sessionId := cs.sessionId, segmentType := cs.segmentType
        reasonCode := cs.reasonCode }
  | .cancelAck seg => .cancelAck
      { engineId := seg.engineId, sessionId := seg.sessionId, segmentType := seg.segmentType }

/-- Decoding the encoded bytes gives the segment back, whatever lies behind them in memory. -/
def RoundTrips (seg : WireSegment) : Prop :=
  ∀ mem, Holds mem 0 (encodeSegment seg) →
    (decodeBuffer mem (encodeSegment seg).length).result = some (arrived seg)

def IdsFit (seg : LTPSegment) : Prop := seg.engineId < 2 ^ 56 ∧ seg.sessionId < 2 ^ 56

/-- Every encoded field has at most seven bits a byte of its C type; a data segment has a payload
and is not a green end of block. The total length as the parsers get it still covers the header
of a data segment or the whole of a report, and the claims are fewer than `2 ^ 31`. -/
def Fits : WireSegment → Prop
  | .data ds => IdsFit ds.toLTPSegment ∧ ds.clientServiceId < 2 ^ 28 ∧ ds.offset < 2 ^ 56 ∧
      ds.payloadLength < 2 ^ 56 ∧ ds.checkpointId < 2 ^ 56 ∧ ds.serialNumber < 2 ^ 56 ∧
      ds.payload ≠ [] ∧ ds.isGreenEndofblock = false ∧
      (encodeLtpDsHeader ds).length ≤ u64OfInt (i32 (encodeSegment (.data ds)).length)
  | .report rs => IdsFit rs.toLTPSegment ∧ rs.serialNumber < 2 ^ 56 ∧ rs.checkpointId < 2 ^ 56 ∧
      rs.upperBounds < 2 ^ 56 ∧ rs.lowerBounds < 2 ^ 56 ∧
      (∀ rc ∈ rs.claims.values, rc.offset - rs.lowerBounds < 2 ^ 56 ∧ rc.length < 2 ^ 56) ∧
      rs.claims.size < 2 ^ 31 ∧
      (encodeSegment (.report rs)).length ≤ u64OfInt (i32 (encodeSegment (.report rs)).length)
  | .reportAck seg => IdsFit seg ∧ seg.serialNumber < 2 ^ 56
  | .cancel cs => IdsFit cs.toLTPSegment
  | .cancelAck seg => IdsFit seg

/-! ## Fields that fit come back -/

theorem decodeBuffer_eq {flags : ℕ} {seg : LTPSegment} (hflags : flags < 16)
    (hs : Stream mem stop 0 (createLtpHeader flags seg ++ rest)) :
    (decodeBuffer mem length).result = (parseFor mem (u64OfInt (i32 length)) flags).result := by
  have hfirst : mem 0 = UInt8.ofNat flags := hs.1.1
  have hmod : (UInt8.ofNat flags).toNat % 16 = flags := by
    rw [UInt8.toNat_ofNat']
    omega
  simp only [decodeBuffer, peek, Logged.result_bind, Logged.result_note, Option.bind_some,
    Logged.result_pure, hfirst, hmod]

theorem parseFor_report : parseFor mem length 0x08 = parseReport mem length := by
  simp only [parseFor, Nat.reduceLT, if_false, if_true]

theorem parseFor_reportAck : parseFor mem length 0x09 = parseReportAck mem length := by
  simp only [parseFor, Nat.reduceLT, Nat.reduceEqDiff, if_false, if_true]

theorem parseFor_csBs : parseFor mem length 0x0C = parseCancel mem length .csBs := by
  simp only [parseFor, Nat.reduceLT, Nat.reduceEqDiff, if_false, if_true]

theorem parseFor_casBs : parseFor mem length 0x0D = parseCancelAck mem length .casBs := by
  simp only [parseFor, Nat.reduceLT, Nat.reduceEqDiff, if_false, if_true]

theorem parseFor_csBr : parseFor mem length 0x0E = parseCancel mem length .csBr := by
  simp only [parseFor, Nat.reduceLT, Nat.reduceEqDiff, if_false, if_true]

theorem parseFor_casBr : parseFor mem length 0x0F = parseCancelAck mem length .casBr := by
  simp only [parseFor, Nat.reduceLT, Nat.reduceEqDiff, if_false, if_true]

/-- The common part of a data segment, as its control byte and ids tell it. -/
def LTPDataSegment.header (ds : LTPDataSegment) : LTPSegment :=
  { engineId := ds.engineId, sessionId := ds.sessionId, redGreen := ds.redGreen
    isCheckpoint := ds.isCheckpoint, isRedEndofblock := ds.isRedEndofblock
    isGreenEndofblock := ds.isGreenEndofblock }

theorem flagsOf_controlFlags {ds : LTPDataSegment} (h : DataBuilt ds)
    (hgreen : ds.isGreenEndofblock = false) :
    ds.controlFlags < 8 ∧
      flagsOf ds.controlFlags { engineId := ds.engineId, sessionId := ds.sessionId } =
        ds.header := by
  rcases h.color with hc | hc
  · obtain ⟨-, heob⟩ := h.red hc
    cases hck : ds.isCheckpoint <;> cases he : ds.isRedEndofblock <;>
      simp_all [LTPDataSegment.controlFlags, LTPSegment.isEndofblock, flagsOf,
        LTPDataSegment.header] <;> rfl
  · obtain ⟨he, hck⟩ := h.green hc
    simp [LTPDataSegment.controlFlags, LTPSegment.isEndofblock, flagsOf, LTPDataSegment.header, hc,
      hgreen, he, hck]
    rfl

theorem DataBuilt.isCheckpoint_eq_false {ds : LTPDataSegment} (h : DataBuilt ds)
    (hif : ¬ (ds.redGreen = .red ∧ ds.isCheckpoint = true)) : ds.isCheckpoint = false := by
  rcases h.color with hc | hc
  · simpa [hc] using hif
  · exact (h.green hc).2

theorem parseCheckpoint_stream {ds : LTPDataSegment} (h : DataBuilt ds) (hlen : length < 2 ^ 64)
    (hstop : stop ≤ length) (hckpt : ds.checkpointId < 2 ^ 56) (hserial : ds.serialNumber < 2 ^ 56)
    (hs : Stream mem stop c ((if ds.redGreen = .red ∧ ds.isCheckpoint then
      encodeField64 ds.checkpointId ++ encodeField64 ds.serialNumber else []) ++ rest)) :
    ∃ c', (parseCheckpoint mem length ds.header c).result =
        some (ds.checkpointId, ds.serialNumber, c') ∧ Stream mem stop c' rest := by
  unfold parseCheckpoint
  by_cases hif : ds.redGreen = .red ∧ ds.isCheckpoint = true
  · rw [if_pos hif, List.append_assoc] at hs
    obtain ⟨c₁, hd₁, hs⟩ := decodeField_stream hlen hstop hckpt hs
    obtain ⟨c₂, hd₂, hs⟩ := decodeField_stream hlen hstop hserial hs
    refine ⟨c₂, ?_, hs⟩
    rw [if_pos (by exact hif)]
    simp only [Logged.result_bind, hd₁, hd₂, Option.bind_some, Logged.result_pure]
  · obtain ⟨h₁, h₂⟩ := h.plain (h.isCheckpoint_eq_false hif)
    rw [if_neg hif, List.nil_append] at hs
    refine ⟨c, ?_, hs⟩
    rw [if_neg (by exact hif), h₁, h₂]
    rfl

theorem encodeLtpDsHeader_eq (ds : LTPDataSegment) :
    encodeLtpDsHeader ds = createLtpHeader ds.controlFlags ds.toLTPSegment ++
      (encodeField32 ds.clientServiceId ++ (encodeField64 ds.offset ++
        (encodeField64 ds.payloadLength ++ ((if ds.redGreen = .red ∧ ds.isCheckpoint then
          encodeField64 ds.checkpointId ++ encodeField64 ds.serialNumber else []) ++ [])))) := by
  simp only [encodeLtpDsHeader, List.append_nil]

theorem roundTrips_data {ds : LTPDataSegment} (h : DataBuilt ds) (hfit : Fits (.data ds)) :
    RoundTrips (.data ds) := by
  obtain ⟨⟨hengine, hsession⟩, hservice, hoffset, hplen, hckpt, hserial, hpayload, hgreen, hseen⟩ :=
    hfit
  intro mem hmem
  obtain ⟨hdata, hflags⟩ := flagsOf_controlFlags h hgreen
  have htotal : (encodeSegment (.data ds)).length =
      (encodeLtpDsHeader ds).length + ds.payloadLength := by
    rw [h.length]
    exact List.length_append
  generalize (encodeSegment (.data ds)).length = total at htotal hseen ⊢
  have h64 := u64OfInt_lt (i32 total)
  have hint := i32_u64OfInt_i32 total
  obtain ⟨hhead, hbody⟩ := holds_append.mp hmem
  rw [Nat.zero_add] at hbody
  have hs : Stream mem (encodeLtpDsHeader ds).length 0 (encodeLtpDsHeader ds) :=
    ⟨hhead, Nat.zero_add _⟩
  generalize (encodeLtpDsHeader ds).length = stop at htotal hseen hbody hs
  rw [encodeLtpDsHeader_eq] at hs
  rw [decodeBuffer_eq (by omega) hs, parseFor, if_pos hdata]
  generalize u64OfInt (i32 total) = length at hseen h64 hint ⊢
  obtain ⟨c₀, hd₀, hs⟩ := parseBuffer_stream h64 hseen (by omega) hengine hsession hs
  rw [hflags] at hd₀
  obtain ⟨c₁, hd₁, hs⟩ := decodeField32_stream h64 hseen hservice hs
  obtain ⟨c₂, hd₂, hs⟩ := decodeField_stream h64 hseen hoffset hs
  obtain ⟨c₃, hd₃, hs⟩ := decodeField_stream h64 hseen hplen hs
  obtain ⟨c₄, hd₄, hs⟩ := parseCheckpoint_stream h h64 hseen hckpt hserial hs
  have hend : c₄ = stop := hs.2
  have hcopy := copyBytes_stream ⟨hbody, rfl⟩
  have hne : ds.payloadLength ≠ 0 := by
    rw [h.length]
    exact (List.length_pos_iff.mpr hpayload).ne'
  simp only [parseData, Logged.result_bind, hd₀, hd₁, hd₂, hd₃, hd₄, Option.bind_some]
  rw [if_neg hne, hend, ← htotal, hint, if_neg (lt_irrefl _)]
  rw [← h.length] at hcopy
  simp only [Logged.result_bind, Logged.result_note, Option.bind_some, if_true,
    Logged.result_pure, arrived, LTPDataSegment.header, hcopy]
  rw [← h.stop, ← h.type]
  rw [Option.some.injEq, WireSegment.data.injEq]
  rw [LTPDataSegment.mk.injEq]
  exact ⟨rfl, rfl, h.start.symm, rfl, rfl, rfl, rfl⟩

/-- The claim loop reads the claims back in order. -/
theorem parseClaims_stream {lower : ℕ} (hlen : length < 2 ^ 64) (hstop : stop ≤ length)
    {claims : List LTPReportClaim}
    (hfit : ∀ rc ∈ claims, lower ≤ rc.offset ∧ rc.offset < 2 ^ 64 ∧
      rc.offset - lower < 2 ^ 56 ∧ rc.length < 2 ^ 56)
    (m : OrdMap ℕ LTPReportClaim) (n : ℕ)
    (hs : Stream mem stop c (encodeClaims lower claims ++ rest)) :
    ∃ c', (parseClaims mem length claims.length c m n).result =
        some (c', claims.foldl (fun m rc => m.insert (rc.offset - lower) (rc.relative lower)) m,
          claims.foldl (fun n rc => u64 (n + rc.length)) n) ∧ Stream mem stop c' rest := by
  induction claims generalizing c m n with
  | nil => exact ⟨c, rfl, hs⟩
  | cons rc claims ih =>
    obtain ⟨hlow, h64, hoff, hl⟩ := hfit rc List.mem_cons_self
    have hrel : u64Sub rc.offset lower = rc.offset - lower := u64Sub_of_le h64 hlow
    rw [encodeClaims, hrel, List.append_assoc, List.append_assoc] at hs
    obtain ⟨c₁, hd₁, hs⟩ := decodeField_stream hlen hstop hoff hs
    obtain ⟨c₂, hd₂, hs⟩ := decodeField_stream hlen hstop hl hs
    obtain ⟨c₃, hd₃, hs⟩ := ih (fun rc' hrc' => hfit rc' (List.mem_cons_of_mem _ hrc'))
      (m.insert (rc.offset - lower) (rc.relative lower)) (u64 (n + rc.length)) hs
    refine ⟨c₃, ?_, hs⟩
    rw [List.length_cons, parseClaims]
    simp only [Logged.result_bind, hd₁, hd₂, Option.bind_some, List.foldl_cons]
    exact hd₃

theorem flagsOf_control {flags : ℕ} (h₁ : 8 ≤ flags) (h₂ : flags < 16) (seg : LTPSegment) :
    flagsOf flags seg = seg := by
  have hbit : flags.testBit 3 = true := by
    interval_cases flags <;> rfl
  simp only [flagsOf, hbit, if_true]

/-- The common part of a segment that is not a data segment. -/
theorem parseBuffer_control {flags : ℕ} {seg : LTPSegment} (hlen : length < 2 ^ 64)
    (hstop : stop ≤ length) (h₁ : 8 ≤ flags) (h₂ : flags < 16) (hids : IdsFit seg)
    (hs : Stream mem stop 0 (createLtpHeader flags seg ++ rest)) :
    ∃ c, (parseBuffer mem length).result =
        some ⟨{ engineId := seg.engineId, sessionId := seg.sessionId }, c, true⟩ ∧
      Stream mem stop c rest := by
  obtain ⟨c, hd, hs⟩ := parseBuffer_stream hlen hstop h₂ hids.1 hids.2 hs
  rw [flagsOf_control h₁ h₂] at hd
  exact ⟨c, hd, hs⟩

theorem mem_values {rs : LTPReportSegment} (h : ReportBuilt rs) {rc : LTPReportClaim}
    (hrc : rc ∈ rs.claims.values) : rs.claims.find? rc.offset = some rc := by
  obtain ⟨e, he, rfl⟩ := List.mem_map.mp hrc
  have hfind := OrdMap.find?_eq_some_iff.mpr he
  rw [h.keyed e.1 e.2 hfind]
  exact hfind

theorem encodeSegment_report (rs : LTPReportSegment) :
    encodeSegment (.report rs) = createLtpHeader 0x08 rs.toLTPSegment ++
      (encodeField64 rs.serialNumber ++ (encodeField64 rs.checkpointId ++
        (encodeField64 rs.upperBounds ++ (encodeField64 rs.lowerBounds ++
          (encodeField64 rs.claimCount ++
            (encodeClaims rs.lowerBounds rs.claims.values ++ [])))))) := by
  simp only [encodeSegment, encodeCounters, List.append_assoc, List.append_nil]

theorem roundTrips_report {rs : LTPReportSegment} (h : ReportBuilt rs) (hfit : Fits (.report rs)) :
    RoundTrips (.report rs) := by
  obtain ⟨hids, hserial, hckpt, hupper, hlower, hclaims, hfew, hseen⟩ := hfit
  intro mem hmem
  have hfit : ∀ rc ∈ rs.claims.values, rs.lowerBounds ≤ rc.offset ∧ rc.offset < 2 ^ 64 ∧
      rc.offset - rs.lowerBounds < 2 ^ 56 ∧ rc.length < 2 ^ 56 := by
    intro rc hrc
    obtain ⟨h₁, h₂, -⟩ := h.claim _ rc (mem_values h hrc)
    exact ⟨h₁, h₂, hclaims rc hrc⟩
  have hsize : rs.claims.values.length = rs.claimCount := by
    rw [h.count]
    simp [OrdMap.values, OrdMap.size]
  have hcount : rs.claimCount < 2 ^ 31 := h.count ▸ hfew
  have hs : Stream mem (encodeSegment (.report rs)).length 0 (encodeSegment (.report rs)) :=
    ⟨hmem, Nat.zero_add _⟩
  generalize (encodeSegment (.report rs)).length = stop at hseen hs ⊢
  have h64 := u64OfInt_lt (i32 stop)
  rw [encodeSegment_report] at hs
  rw [decodeBuffer_eq (by omega) hs, parseFor_report]
  generalize u64OfInt (i32 stop) = length at hseen h64 ⊢
  obtain ⟨c₀, hd₀, hs⟩ := parseBuffer_control h64 hseen le_rfl (by omega) hids hs
  obtain ⟨c₁, hd₁, hs⟩ := decodeField_stream h64 hseen hserial hs
  obtain ⟨c₂, hd₂, hs⟩ := decodeField_stream h64 hseen hckpt hs
  obtain ⟨c₃, hd₃, hs⟩ := decodeField_stream h64 hseen hupper hs
  obtain ⟨c₄, hd₄, hs⟩ := decodeField_stream h64 hseen hlower hs
  obtain ⟨c₅, hd₅, hs⟩ := decodeField_stream h64 hseen (by omega) hs
  obtain ⟨c₆, hd₆, hs⟩ := parseClaims_stream h64 hseen hfit .empty 0 hs
  have hint : (i32 rs.claimCount).toNat = rs.claims.values.length := by
    rw [i32_of_lt hcount, hsize, Int.toNat_natCast]
  have hend : ¬ length < c₆ := by
    have : c₆ = stop := hs.2
    omega
  rw [← hint] at hd₆
  simp only [parseReport, Logged.result_bind, hd₀, hd₁, Option.bind_some, Bool.true_eq_false,
    if_false, hd₂, hd₃, hd₄, hd₅, hd₆]
  rw [if_neg hend]
  simp only [Logged.result_bind, Logged.result_note, Option.bind_some, Logged.result_pure, arrived,
    relativeClaims]

/-! Segments without claims and payload are short, so their length survives the cast. -/

theorem length_createLtpHeader (flags : ℕ) (seg : LTPSegment) :
    (createLtpHeader flags seg).length =
      2 + (encodeField64 seg.engineId).length + (encodeField64 seg.sessionId).length := by
  simp only [createLtpHeader, List.length_cons, List.length_append, List.length_nil]
  omega

theorem length_encodeField64_le (h64 : val < 2 ^ 64) : (encodeField64 val).length ≤ 10 :=
  (length_encodeField64 h64).1.trans (encodingLen_le_max h64)

theorem length_reportAck_lt {seg : LTPSegment} (h : WellBuilt (.reportAck seg)) :
    (encodeSegment (.reportAck seg)).length < 2 ^ 31 := by
  obtain ⟨⟨hengine, hsession⟩, hserial⟩ := h
  have h₁ := length_encodeField64_le hengine
  have h₂ := length_encodeField64_le hsession
  have h₃ := length_encodeField64_le hserial
  rw [encodeSegment, List.length_append, length_createLtpHeader]
  omega

theorem length_cancel_lt {cs : LTPCancelSegment} (h : WellBuilt (.cancel cs)) :
    (encodeSegment (.cancel cs)).length < 2 ^ 31 := by
  have h₁ := length_encodeField64_le h.1.engine
  have h₂ := length_encodeField64_le h.1.session
  rw [encodeSegment, List.length_append, length_createLtpHeader, List.length_singleton]
  omega

theorem length_cancelAck_lt {seg : LTPSegment} (h : WellBuilt (.cancelAck seg)) :
    (encodeSegment (.cancelAck seg)).length < 2 ^ 31 := by
  have h₁ := length_encodeField64_le h.1.engine
  have h₂ := length_encodeField64_le h.1.session
  rw [encodeSegment, length_createLtpHeader]
  omega

theorem roundTrips_reportAck {seg : LTPSegment} (h : WellBuilt (.reportAck seg))
    (hfit : Fits (.reportAck seg)) : RoundTrips (.reportAck seg) := by
  obtain ⟨hids, hserial⟩ := hfit
  intro mem hmem
  have hbytes : encodeSegment (.reportAck seg) = createLtpHeader 0x09 seg ++
      (encodeField64 seg.serialNumber ++ []) := by
    simp only [encodeSegment, List.append_nil]
  have hshort := length_reportAck_lt h
  generalize hlength : (encodeSegment (.reportAck seg)).length = length at hshort ⊢
  have hs : Stream mem length 0 (encodeSegment (.reportAck seg)) := ⟨hmem, by omega⟩
  rw [hbytes] at hs
  rw [decodeBuffer_eq (by omega) hs, u64OfInt_i32 hshort, parseFor_reportAck]
  obtain ⟨c₀, hd₀, hs⟩ := parseBuffer_control (by omega) le_rfl (by omega) (by omega) hids hs
  obtain ⟨c₁, hd₁, hs⟩ := decodeField_stream (by omega) le_rfl hserial hs
  have hend : ¬ length < c₁ := by
    have : c₁ = length := hs.2
    omega
  simp only [parseReportAck, Logged.result_bind, hd₀, hd₁, Option.bind_some, Bool.true_eq_false,
    if_false]
  rw [if_neg hend]
  rfl

theorem roundTrips_cancel {cs : LTPCancelSegment} (h : WellBuilt (.cancel cs))
    (hfit : Fits (.cancel cs)) : RoundTrips (.cancel cs) := by
  have hshort := length_cancel_lt h
  obtain ⟨-, htype, hreason⟩ := h
  intro mem hmem
  have hflag : (8 : ℕ) ≤ (if cs.segmentType = .csBr then 0x0E else 0x0C) ∧
      (if cs.segmentType = .csBr then 0x0E else 0x0C : ℕ) < 16 := by
    split_ifs <;> omega
  generalize hlength : (encodeSegment (.cancel cs)).length = length at hshort ⊢
  have hs : Stream mem length 0 (encodeSegment (.cancel cs)) := ⟨hmem, by omega⟩
  rw [encodeSegment] at hs
  rw [decodeBuffer_eq hflag.2 hs, u64OfInt_i32 hshort]
  obtain ⟨c₀, hd₀, hs⟩ := parseBuffer_control (by omega) le_rfl hflag.1 hflag.2 hfit hs
  obtain ⟨hd₁, hs⟩ := peek_stream hs
  have hend : ¬ length < c₀ + 1 := by
    have : c₀ + 1 = length := hs.2
    omega
  have hbyte : (UInt8.ofNat cs.reasonCode).toNat = cs.reasonCode := by
    rw [UInt8.toNat_ofNat']
    omega
  have hparse : ∀ t, (parseCancel mem length t).result = some (.cancel
      { engineId := cs.engineId, sessionId := cs.sessionId, segmentType := t
        reasonCode := cs.reasonCode }) := by
    intro t
    simp only [parseCancel, Logged.result_bind, hd₀, hd₁, Option.bind_some, Bool.true_eq_false,
      if_false]
    rw [if_neg hend, hbyte]
    rfl
  rcases htype with ht | ht
  · rw [ht, if_neg (by decide), parseFor_csBs, hparse, arrived, ht]
  · rw [ht, if_pos rfl, parseFor_csBr, hparse, arrived, ht]

theorem roundTrips_cancelAck {seg : LTPSegment} (h : WellBuilt (.cancelAck seg))
    (hfit : Fits (.cancelAck seg)) : RoundTrips (.cancelAck seg) := by
  have hshort := length_cancelAck_lt h
  obtain ⟨-, htype⟩ := h
  intro mem hmem
  have hflag : (8 : ℕ) ≤ (if seg.segmentType = .casBr then 0x0F else 0x0D) ∧
      (if seg.segmentType = .casBr then 0x0F else 0x0D : ℕ) < 16 := by
    split_ifs <;> omega
  generalize hlength : (encodeSegment (.cancelAck seg)).length = length at hshort ⊢
  have hs : Stream mem length 0 (encodeSegment (.cancelAck seg)) := ⟨hmem, by omega⟩
  rw [encodeSegment, ← List.append_nil (createLtpHeader _ _)] at hs
  rw [decodeBuffer_eq hflag.2 hs, u64OfInt_i32 hshort]
  obtain ⟨c₀, hd₀, hs⟩ := parseBuffer_control (by omega) le_rfl hflag.1 hflag.2 hfit hs
  have hparse : ∀ t, (parseCancelAck mem length t).result = some (.cancelAck
      { engineId := seg.engineId, sessionId := seg.sessionId, segmentType := t }) := by
    intro t
    simp only [parseCancelAck, Logged.result_bind, hd₀, Option.bind_some, Bool.true_eq_false,
      if_false, Logged.result_pure]
  rcases htype with ht | ht
  · rw [ht, if_neg (by decide), parseFor_casBs, hparse, arrived, ht]
  · rw [ht, if_pos rfl, parseFor_casBr, hparse, arrived, ht]

/-! ## What a decoder must have read -/

theorem decodeField_consumes {v c' : ℕ} (h : (decodeField mem length c).result = some (v, c')) :
    c + encodingLen v ≤ c' ∧ v < 2 ^ 64 ∧ (c ≤ length → length < 2 ^ 64 → c' ≤ length) := by
  simp only [decodeField, Logged.result_bind, Option.bind_eq_some_iff, Prod.exists,
    Logged.result_pure, Option.some.injEq, Prod.mk.injEq] at h
  obtain ⟨v', n, hd, rfl, rfl⟩ := h
  obtain ⟨hn, hv, hcount⟩ := decode_bound hd
  refine ⟨by omega, hv, fun hle hlen => ?_⟩
  rw [u64Sub_of_le hlen hle] at hn
  omega

/-- No number ends from an address on. -/
def High (mem : ℕ → UInt8) (stop : ℕ) : Prop := ∀ i, stop ≤ i → 128 ≤ (mem i).toNat

theorem decodeField_inside {v c' : ℕ} (hhigh : High mem stop)
    (h : (decodeField mem length c).result = some (v, c')) : c' ≤ stop := by
  simp only [decodeField, Logged.result_bind, Option.bind_eq_some_iff, Prod.exists,
    Logged.result_pure, Option.some.injEq, Prod.mk.injEq] at h
  obtain ⟨v', n, hd, rfl, rfl⟩ := h
  by_contra hlt
  have hpos := (encodingLen_pos v').trans (decode_bound hd).2.2
  exact absurd (decode_last hd) (not_lt.mpr (hhigh _ (by omega)))

theorem decodeField32_consumes {v c' : ℕ}
    (h : (decodeField32 mem length c).result = some (v, c')) :
    c + encodingLen v ≤ c' ∧ (c ≤ length → length < 2 ^ 64 → c' ≤ length) := by
  simp only [decodeField32, Logged.result_bind, Option.bind_eq_some_iff, Prod.exists,
    Logged.result_pure, Option.some.injEq, Prod.mk.injEq] at h
  obtain ⟨v', n, hd, rfl, rfl⟩ := h
  obtain ⟨hn, -, hcount⟩ := decode_bound (decode32_eq_some.mp hd).1
  refine ⟨by omega, fun hle hlen => ?_⟩
  rw [u64Sub_of_le hlen hle] at hn
  omega

theorem parseCipherKey_le {segLen next : ℕ}
    (h : (parseCipherKey mem length segLen c).result = some next) : c ≤ next := by
  unfold parseCipherKey at h
  split_ifs at h with hone
  · cases h
    exact le_rfl
  · simp only [Logged.result_bind, Option.bind_eq_some_iff, Prod.exists, Logged.result_pure,
      Option.some.injEq] at h
    obtain ⟨key, next', hd, rfl⟩ := h
    have := (decodeField32_consumes hd).1
    omega

theorem parseExtension_le {st st' : ExtState} (h : (parseExtension mem length st).result = some st') :
    st.currentByte ≤ st'.currentByte := by
  unfold parseExtension at h
  simp only [Logged.result_bind, Option.bind_eq_some_iff, Prod.exists] at h
  obtain ⟨tag, -, testLen, c, hd, h⟩ := h
  have hc := (decodeField32_consumes hd).1
  split_ifs at h with hfirst
  · simp only [Logged.result_bind, Option.bind_eq_some_iff, Logged.result_note, Logged.result_pure,
      Option.some.injEq, exists_const] at h
    obtain ⟨suite, -, next, hnext, -, -, rfl⟩ := h
    have := parseCipherKey_le hnext
    show st.currentByte ≤ next
    omega
  · simp only [Logged.result_bind, Option.bind_some, Logged.result_note, Logged.result_pure,
      Option.some.injEq] at h
    rw [← h]
    show st.currentByte ≤ c + st.segLen
    omega

theorem parseExtensions_le {n : ℕ} {st st' : ExtState}
    (h : (parseExtensions mem length n st).result = some st') :
    st.currentByte ≤ st'.currentByte := by
  induction n generalizing st with
  | zero =>
    cases h
    exact le_rfl
  | succ n ih =>
    simp only [parseExtensions, Logged.result_bind, Option.bind_eq_some_iff] at h
    obtain ⟨st₁, h₁, h⟩ := h
    exact (parseExtension_le h₁).trans (ih h)

theorem parseBuffer_consumes {h : Header} (hp : (parseBuffer mem length).result = some h) :
    ∃ engineId sessionId current, h = ⟨flagsOf ((mem 0).toNat % 16) { engineId, sessionId },
        current, decide (current ≤ length)⟩ ∧
      2 + encodingLen engineId + encodingLen sessionId ≤ current := by
  unfold parseBuffer at hp
  obtain ⟨first, hfirst, hp⟩ := Logged.result_bind_eq_some.mp hp
  obtain ⟨⟨engineId, c₁⟩, h₁, hp⟩ := Logged.result_bind_eq_some.mp hp
  obtain ⟨⟨sessionId, c₂⟩, h₂, hp⟩ := Logged.result_bind_eq_some.mp hp
  obtain ⟨ext, hext, hp⟩ := Logged.result_bind_eq_some.mp hp
  obtain ⟨st, hst, hp⟩ := Logged.result_bind_eq_some.mp hp
  obtain rfl : mem 0 = first := Option.some.inj hfirst
  have hc₁ := (decodeField_consumes h₁).1
  have hc₂ := (decodeField_consumes h₂).1
  have hst : c₂ + 1 ≤ st.currentByte := parseExtensions_le hst
  exact ⟨engineId, sessionId, st.currentByte, (Option.some.inj hp).symm, by omega⟩

theorem parseCheckpoint_consumes {seg : LTPSegment} {ckpt serial c' : ℕ}
    (h : (parseCheckpoint mem length seg c).result = some (ckpt, serial, c')) :
    c + (if seg.redGreen = .red ∧ seg.isCheckpoint then encodingLen ckpt + encodingLen serial
      else 0) ≤ c' ∧ (c ≤ length → length < 2 ^ 64 → c' ≤ length) := by
  unfold parseCheckpoint at h
  split_ifs at h ⊢ with hif
  · obtain ⟨⟨ckpt', c₁⟩, h₁, h⟩ := Logged.result_bind_eq_some.mp h
    obtain ⟨⟨serial', c₂⟩, h₂, h⟩ := Logged.result_bind_eq_some.mp h
    cases h
    obtain ⟨hc₁, -, hb₁⟩ := decodeField_consumes h₁
    obtain ⟨hc₂, -, hb₂⟩ := decodeField_consumes h₂
    exact ⟨by omega, fun hle hlen => hb₂ (hb₁ hle hlen) hlen⟩
  · cases h
    exact ⟨le_rfl, fun hle _ => hle⟩

theorem flagsOf_green (flags engineId sessionId : ℕ) :
    (flagsOf flags { engineId, sessionId }).isGreenEndofblock = true →
      (flagsOf flags { engineId, sessionId }).isCheckpoint = true := by
  unfold flagsOf
  simp only
  split_ifs
  · intro h
    cases h
  · intro h
    cases h
  · intro h
    exact (Bool.and_eq_true_iff.mp h).1

@[simp] theorem flagsOf_engineId (flags : ℕ) (seg : LTPSegment) :
    (flagsOf flags seg).engineId = seg.engineId := by
  unfold flagsOf
  simp only
  split_ifs <;> rfl

@[simp] theorem flagsOf_sessionId (flags : ℕ) (seg : LTPSegment) :
    (flagsOf flags seg).sessionId = seg.sessionId := by
  unfold flagsOf
  simp only
  split_ifs <;> rfl

/-- The payload of an accepted data segment lies behind room for the full encoding of its
fields. -/
theorem parseData_consumes {d : LTPDataSegment} (hlen : length < 2 ^ 64)
    (hp : (parseData mem length).result = some (.data d)) :
    d.payloadLength ≠ 0 ∧ (d.isGreenEndofblock = true → d.isCheckpoint = true) ∧
      ∃ c, 2 + encodingLen d.engineId + encodingLen d.sessionId + encodingLen d.clientServiceId +
        encodingLen d.offset + encodingLen d.payloadLength +
        (if d.redGreen = .red ∧ d.isCheckpoint then
          encodingLen d.checkpointId + encodingLen d.serialNumber else 0) ≤ c ∧
        c ≤ length ∧ d.payload = copyBytes mem c d.payloadLength := by
  unfold parseData at hp
  obtain ⟨h, hh, hp⟩ := Logged.result_bind_eq_some.mp hp
  obtain ⟨⟨service, c₁⟩, h₁, hp⟩ := Logged.result_bind_eq_some.mp hp
  obtain ⟨⟨offset, c₂⟩, h₂, hp⟩ := Logged.result_bind_eq_some.mp hp
  obtain ⟨⟨plen, c₃⟩, h₃, hp⟩ := Logged.result_bind_eq_some.mp hp
  obtain ⟨⟨ckpt, serial, c₄⟩, h₄, hp⟩ := Logged.result_bind_eq_some.mp hp
  obtain ⟨engineId, sessionId, c₀, rfl, hc₀⟩ := parseBuffer_consumes hh
  simp only at hp h₁ h₄
  split_ifs at hp with hz hcmp hvalid
  · cases hp
  · cases hp
  · cases hp
    have hc₀' : c₀ ≤ length := of_decide_eq_true hvalid
    obtain ⟨hc₁, hb₁⟩ := decodeField32_consumes h₁
    obtain ⟨hc₂, -, hb₂⟩ := decodeField_consumes h₂
    obtain ⟨hc₃, -, hb₃⟩ := decodeField_consumes h₃
    obtain ⟨hc₄, hb₄⟩ := parseCheckpoint_consumes h₄
    refine ⟨hz, flagsOf_green _ engineId sessionId, c₄, ?_, ?_, rfl⟩
    · simp only [flagsOf_engineId, flagsOf_sessionId]
      omega
    · exact hb₄ (hb₃ (hb₂ (hb₁ hc₀' hlen) hlen) hlen) hlen
  · cases hp

theorem parseReportAck_consumes {d : LTPSegment}
    (hp : (parseReportAck mem length).result = some (.reportAck d)) :
    2 + encodingLen d.engineId + encodingLen d.sessionId + encodingLen d.serialNumber ≤ length := by
  unfold parseReportAck at hp
  obtain ⟨h, hh, hp⟩ := Logged.result_bind_eq_some.mp hp
  obtain ⟨engineId, sessionId, c₀, rfl, hc₀⟩ := parseBuffer_consumes hh
  split_ifs at hp with hvalid
  · cases hp
  · obtain ⟨⟨serial, c₁⟩, h₁, hp⟩ := Logged.result_bind_eq_some.mp hp
    have hc₁ := (decodeField_consumes h₁).1
    simp only at hp hc₁
    split_ifs at hp with hend
    · cases hp
    · cases hp
      simp only [flagsOf_engineId, flagsOf_sessionId]
      omega

theorem parseCancel_consumes {t : SegmentType} {d : LTPCancelSegment}
    (hp : (parseCancel mem length t).result = some (.cancel d)) :
    2 + encodingLen d.engineId + encodingLen d.sessionId + 1 ≤ length := by
  unfold parseCancel at hp
  obtain ⟨h, hh, hp⟩ := Logged.result_bind_eq_some.mp hp
  obtain ⟨engineId, sessionId, c₀, rfl, hc₀⟩ := parseBuffer_consumes hh
  simp only at hp
  split_ifs at hp with hvalid hend
  · cases hp
  · cases hp
  · obtain ⟨reason, -, hp⟩ := Logged.result_bind_eq_some.mp hp
    cases hp
    simp only [flagsOf_engineId, flagsOf_sessionId]
    omega

theorem parseCancelAck_consumes {t : SegmentType} {d : LTPSegment}
    (hp : (parseCancelAck mem length t).result = some (.cancelAck d)) :
    2 + encodingLen d.engineId + encodingLen d.sessionId ≤ length := by
  unfold parseCancelAck at hp
  obtain ⟨h, hh, hp⟩ := Logged.result_bind_eq_some.mp hp
  obtain ⟨engineId, sessionId, c₀, rfl, hc₀⟩ := parseBuffer_consumes hh
  split_ifs at hp with hvalid
  · cases hp
  · cases hp
    simp only [decide_eq_false_iff_not, not_not] at hvalid
    simp only [flagsOf_engineId, flagsOf_sessionId]
    omega

/-- The bytes that the full encoding of a claim takes. -/
def LTPReportClaim.cost (rc : LTPReportClaim) : ℕ := encodingLen rc.offset + encodingLen rc.length

theorem parseClaims_consumes (stop : ℕ) {n c' : ℕ} {m m' : OrdMap ℕ LTPReportClaim} {b b' : ℕ}
    (hp : (parseClaims mem length n c m b).result = some (c', m', b')) :
    c + m'.sum LTPReportClaim.cost ≤ c' + m.sum LTPReportClaim.cost ∧ m'.size ≤ m.size + n ∧
      (High mem stop → c ≤ stop → c' ≤ stop) := by
  induction n generalizing c m b with
  | zero =>
    cases hp
    exact ⟨le_rfl, le_rfl, fun _ hc => hc⟩
  | succ n ih =>
    rw [parseClaims] at hp
    obtain ⟨⟨offset, c₁⟩, h₁, hp⟩ := Logged.result_bind_eq_some.mp hp
    obtain ⟨⟨len, c₂⟩, h₂, hp⟩ := Logged.result_bind_eq_some.mp hp
    have hc₁ := (decodeField_consumes h₁).1
    have hc₂ := (decodeField_consumes h₂).1
    obtain ⟨hcost, hsize, hin⟩ := ih hp
    have hins := m.sum_insert_le offset ⟨offset, len⟩ LTPReportClaim.cost
    have hone := m.sum_insert_le offset ⟨offset, len⟩ (fun _ => 1)
    have hnew : LTPReportClaim.cost ⟨offset, len⟩ = encodingLen offset + encodingLen len := rfl
    rw [OrdMap.sum_one, OrdMap.sum_one] at hone
    exact ⟨by omega, by omega, fun hhigh _ => hin hhigh (decodeField_inside hhigh h₂)⟩

theorem parseReport_consumes {d : LTPReportSegment}
    (hp : (parseReport mem length).result = some (.report d)) :
    d.claims.size ≤ (i32 d.claimCount).toNat ∧
    ∃ c, 2 + encodingLen d.engineId + encodingLen d.sessionId + encodingLen d.serialNumber +
        encodingLen d.checkpointId + encodingLen d.upperBounds + encodingLen d.lowerBounds +
        encodingLen d.claimCount + d.claims.sum LTPReportClaim.cost ≤ c ∧ c ≤ length ∧
      (High mem stop → c ≤ stop) := by
  unfold parseReport at hp
  obtain ⟨h, hh, hp⟩ := Logged.result_bind_eq_some.mp hp
  obtain ⟨engineId, sessionId, c₀, rfl, hc₀⟩ := parseBuffer_consumes hh
  simp only at hp
  split_ifs at hp with hvalid
  · cases hp
  · obtain ⟨⟨serial, c₁⟩, h₁, hp⟩ := Logged.result_bind_eq_some.mp hp
    obtain ⟨⟨ckpt, c₂⟩, h₂, hp⟩ := Logged.result_bind_eq_some.mp hp
    obtain ⟨⟨upper, c₃⟩, h₃, hp⟩ := Logged.result_bind_eq_some.mp hp
    obtain ⟨⟨lower, c₄⟩, h₄, hp⟩ := Logged.result_bind_eq_some.mp hp
    obtain ⟨⟨count, c₅⟩, h₅, hp⟩ := Logged.result_bind_eq_some.mp hp
    obtain ⟨⟨c₆, claims, claimed⟩, h₆, hp⟩ := Logged.result_bind_eq_some.mp hp
    have hc₁ := (decodeField_consumes h₁).1
    have hc₂ := (decodeField_consumes h₂).1
    have hc₃ := (decodeField_consumes h₃).1
    have hc₄ := (decodeField_consumes h₄).1
    have hc₅ := (decodeField_consumes h₅).1
    obtain ⟨hcost, hsize, hin⟩ := parseClaims_consumes stop h₆
    simp only at hp hc₁
    split_ifs at hp with hend
    · cases hp
    · obtain ⟨-, -, hp⟩ := Logged.result_bind_eq_some.mp hp
      cases hp
      refine ⟨by simpa [OrdMap.size, OrdMap.empty] using hsize, c₆, ?_, not_lt.mp hend, ?_⟩
      · simp only [flagsOf_engineId, flagsOf_sessionId]
        rw [OrdMap.sum_empty] at hcost
        omega
      · exact fun hhigh => hin hhigh (decodeField_inside hhigh h₅)

/-! ## Segments that come back fit -/

theorem controlFlags_lt (ds : LTPDataSegment) : ds.controlFlags < 8 := by
  unfold LTPDataSegment.controlFlags
  simp only
  split_ifs <;> decide

/-- The decoder of a segment's own type returned what should arrive. -/
theorem RoundTrips.parsed {seg : WireSegment} {flags : ℕ} {s : LTPSegment} {l : List UInt8}
    (h : RoundTrips seg) (hflags : flags < 16)
    (hbytes : encodeSegment seg = createLtpHeader flags s ++ l) (fill : UInt8) :
    (parseFor (memOf (encodeSegment seg) fill) (u64OfInt (i32 (encodeSegment seg).length))
      flags).result = some (arrived seg) := by
  have hmem := holds_memOf (encodeSegment seg) fill
  have hs : Stream (memOf (encodeSegment seg) fill) (encodeSegment seg).length 0
      (createLtpHeader flags s ++ l) := by
    rw [← hbytes]
    exact ⟨hmem, Nat.zero_add _⟩
  rw [← decodeBuffer_eq hflags hs]
  exact h _ hmem

theorem fits_reportAck {seg : LTPSegment} (hb : WellBuilt (.reportAck seg))
    (h : RoundTrips (.reportAck seg)) : Fits (.reportAck seg) := by
  have hp := h.parsed (show 0x09 < 16 by norm_num) rfl 0
  rw [parseFor_reportAck, u64OfInt_i32 (length_reportAck_lt hb)] at hp
  obtain ⟨⟨hengine, hsession⟩, hserial⟩ := hb
  have hle := parseReportAck_consumes hp
  simp only [encodeSegment, List.length_append, length_createLtpHeader] at hle
  have h₁ := length_encodeField64 hengine
  have h₂ := length_encodeField64 hsession
  have h₃ := length_encodeField64 hserial
  refine ⟨⟨?_, ?_⟩, ?_⟩
  all_goals
    by_contra hno
    omega

theorem fits_cancel {cs : LTPCancelSegment} (hb : WellBuilt (.cancel cs))
    (h : RoundTrips (.cancel cs)) : Fits (.cancel cs) := by
  have hflags : (if cs.segmentType = .csBr then 0x0E else 0x0C : ℕ) < 16 := by
    split_ifs <;> omega
  have hp := h.parsed hflags rfl 0
  rw [u64OfInt_i32 (length_cancel_lt hb)] at hp
  obtain ⟨⟨hengine, hsession⟩, htype, -⟩ := hb
  have hle : 2 + encodingLen cs.engineId + encodingLen cs.sessionId + 1 ≤
      (encodeSegment (.cancel cs)).length := by
    rcases htype with ht | ht
    · rw [ht, if_neg (by decide), parseFor_csBs] at hp
      have hle := parseCancel_consumes hp
      exact hle
    · rw [ht, if_pos rfl, parseFor_csBr] at hp
      have hle := parseCancel_consumes hp
      exact hle
  simp only [encodeSegment, List.length_append, length_createLtpHeader, List.length_singleton] at hle
  have h₁ := length_encodeField64 hengine
  have h₂ := length_encodeField64 hsession
  refine ⟨?_, ?_⟩
  all_goals
    by_contra hno
    omega

theorem fits_cancelAck {seg : LTPSegment} (hb : WellBuilt (.cancelAck seg))
    (h : RoundTrips (.cancelAck seg)) : Fits (.cancelAck seg) := by
  have hflags : (if seg.segmentType = .casBr then 0x0F else 0x0D : ℕ) < 16 := by
    split_ifs <;> omega
  have hp := h.parsed hflags (List.append_nil _).symm 0
  rw [u64OfInt_i32 (length_cancelAck_lt hb)] at hp
  obtain ⟨⟨hengine, hsession⟩, htype⟩ := hb
  have hle : 2 + encodingLen seg.engineId + encodingLen seg.sessionId ≤
      (encodeSegment (.cancelAck seg)).length := by
    rcases htype with ht | ht
    · rw [ht, if_neg (by decide), parseFor_casBs] at hp
      have hle := parseCancelAck_consumes hp
      exact hle
    · rw [ht, if_pos rfl, parseFor_casBr] at hp
      have hle := parseCancelAck_consumes hp
      exact hle
  simp only [encodeSegment, length_createLtpHeader] at hle
  have h₁ := length_encodeField64 hengine
  have h₂ := length_encodeField64 hsession
  refine ⟨?_, ?_⟩
  all_goals
    by_contra hno
    omega

/-- A payload that comes back whatever lies behind the packet was read inside it. -/
theorem copyBytes_inside {l payload : List UInt8} {b : UInt8} (hne : payload ≠ [])
    (hb : b ≠ payload.getLast hne) (hc : payload = copyBytes (memOf l b) c payload.length) :
    c + payload.length ≤ l.length := by
  by_contra hlt
  have hpos := List.length_pos_iff.mpr hne
  apply hb
  rw [List.getLast_eq_getElem]
  have hlast : payload[payload.length - 1]? =
      (copyBytes (memOf l b) c payload.length)[payload.length - 1]? := by
    rw [← hc]
  rw [List.getElem?_eq_getElem (by omega)] at hlast
  simp only [copyBytes, List.getElem?_map, List.getElem?_range (show payload.length - 1 <
    payload.length by omega), Option.map_some, Option.some.injEq] at hlast
  rw [hlast, memOf_of_le (by omega)]

theorem fits_data {ds : LTPDataSegment} (hb : DataBuilt ds) (h : RoundTrips (.data ds)) :
    Fits (.data ds) := by
  have hflags := controlFlags_lt ds
  have hlen64 := u64OfInt_lt (i32 (encodeSegment (.data ds)).length)
  have hparsed := h.parsed (hflags.trans (by norm_num)) (by rw [encodeSegment, encodeLtpDsHeader_eq,
    List.append_assoc])
  simp only [parseFor, if_pos hflags] at hparsed
  have hpayload : ds.payload ≠ [] := by
    intro hnil
    apply (parseData_consumes hlen64 (hparsed 0)).1
    show ds.payloadLength = 0
    rw [hb.length, hnil, List.length_nil]
  have : Nontrivial UInt8 := ⟨0, 1, by decide⟩
  obtain ⟨b, hbyte⟩ := exists_ne (ds.payload.getLast hpayload)
  obtain ⟨-, hgreen, c, hle, hc, hcopy⟩ := parseData_consumes hlen64 (hparsed b)
  have hnogreen : ds.isGreenEndofblock = false := by
    cases heob : ds.isGreenEndofblock with
    | false => rfl
    | true =>
      have hck : ds.isCheckpoint = true := hgreen heob
      rcases hb.color with hc | hc
      · rw [(hb.red hc).1] at heob
        exact heob.symm
      · rw [(hb.green hc).2] at hck
        exact hck.symm
  have hcopy : ds.payload = copyBytes (memOf (encodeSegment (.data ds)) b) c ds.payload.length :=
    hb.length ▸ hcopy
  have hin := copyBytes_inside hpayload hbyte hcopy
  have htotal : (encodeSegment (.data ds)).length =
      (encodeLtpDsHeader ds).length + ds.payload.length := List.length_append
  have hhead : (encodeLtpDsHeader ds).length = 2 + (encodeField64 ds.engineId).length +
      (encodeField64 ds.sessionId).length + ((encodeField32 ds.clientServiceId).length +
      ((encodeField64 ds.offset).length + ((encodeField64 ds.payloadLength).length +
      (if ds.redGreen = .red ∧ ds.isCheckpoint then
        encodeField64 ds.checkpointId ++ encodeField64 ds.serialNumber else []).length))) := by
    simp only [encodeLtpDsHeader, List.length_append, length_createLtpHeader]
  have h₁ := length_encodeField64 hb.engine
  have h₂ := length_encodeField64 hb.session
  have h₃ := length_encodeField32 hb.service
  have h₄ := length_encodeField64 hb.offset
  have h₅ := length_encodeField64 hb.size
  simp only at hle
  rw [Fits]
  by_cases hif : ds.redGreen = .red ∧ ds.isCheckpoint = true
  · have h₆ := length_encodeField64 hb.checkpoint
    have h₇ := length_encodeField64 hb.serial
    rw [if_pos hif] at hle
    rw [if_pos hif, List.length_append] at hhead
    refine ⟨⟨?_, ?_⟩, ?_, ?_, ?_, ?_, ?_, hpayload, hnogreen, by omega⟩
    all_goals
      by_contra hno
      omega
  · obtain ⟨hckpt, hserial⟩ := hb.plain (hb.isCheckpoint_eq_false hif)
    rw [if_neg hif] at hle
    rw [if_neg hif, List.length_nil] at hhead
    rw [hckpt, hserial]
    refine ⟨⟨?_, ?_⟩, ?_, ?_, ?_, by norm_num, by norm_num, hpayload, hnogreen, by omega⟩
    all_goals
      by_contra hno
      omega

theorem length_encodeClaims {lower : ℕ} {claims : List LTPReportClaim}
    (hb : ∀ rc ∈ claims, lower ≤ rc.offset ∧ rc.offset < 2 ^ 64 ∧ rc.length < 2 ^ 64) :
    (encodeClaims lower claims).length ≤
        (claims.map (fun rc => (rc.relative lower).cost)).sum ∧
      (¬ (∀ rc ∈ claims, rc.offset - lower < 2 ^ 56 ∧ rc.length < 2 ^ 56) →
        (encodeClaims lower claims).length <
          (claims.map (fun rc => (rc.relative lower).cost)).sum) := by
  induction claims with
  | nil => simp [encodeClaims]
  | cons rc claims ih =>
    obtain ⟨hle, hlt⟩ := ih fun rc' hrc' => hb rc' (List.mem_cons_of_mem _ hrc')
    obtain ⟨hlow, h64, hl⟩ := hb rc List.mem_cons_self
    have h₁ := length_encodeField64 (show rc.offset - lower < 2 ^ 64 by omega)
    have h₂ := length_encodeField64 hl
    have hcost : (rc.relative lower).cost =
      encodingLen (rc.offset - lower) + encodingLen rc.length := rfl
    rw [encodeClaims, u64Sub_of_le h64 hlow, List.map_cons, List.sum_cons, List.length_append,
      List.length_append, hcost]
    refine ⟨by omega, fun hno => ?_⟩
    rw [List.forall_mem_cons] at hno
    by_cases hrest : ∀ rc ∈ claims, rc.offset - lower < 2 ^ 56 ∧ rc.length < 2 ^ 56
    · have : ¬ (rc.offset - lower < 2 ^ 56 ∧ rc.length < 2 ^ 56) := fun hrc => hno ⟨hrc, hrest⟩
      omega
    · have := hlt hrest
      omega

theorem pairwise_values {rs : LTPReportSegment} (h : ReportBuilt rs) :
    rs.claims.values.Pairwise
      (fun a b => a.offset - rs.lowerBounds ≠ b.offset - rs.lowerBounds) := by
  rw [OrdMap.values, List.pairwise_map]
  refine rs.claims.sorted.imp_of_mem fun {a b} ha hb hab => ?_
  have hfa := OrdMap.find?_eq_some_iff.mpr ha
  have hfb := OrdMap.find?_eq_some_iff.mpr hb
  have hka := h.keyed _ _ hfa
  have hkb := h.keyed _ _ hfb
  have hla := (h.claim _ _ hfa).1
  omega

theorem fits_report {rs : LTPReportSegment} (hb : ReportBuilt rs) (h : RoundTrips (.report rs)) :
    Fits (.report rs) := by
  have hp := h.parsed (show 0x08 < 16 by norm_num) rfl 0xff
  rw [parseFor_report] at hp
  have hhigh : High (memOf (encodeSegment (.report rs)) 0xff) (encodeSegment (.report rs)).length := by
    intro i hi
    rw [memOf_of_le hi]
    decide
  obtain ⟨hfew, c, hle, hc, hin⟩ := parseReport_consumes hp
  have hin := hin hhigh
  have hsum : ∀ f, (relativeClaims rs.lowerBounds rs.claims.values).sum f =
      (rs.claims.values.map (fun rc => f (rc.relative rs.lowerBounds))).sum := by
    intro f
    have := OrdMap.sum_foldl_insert (fun rc : LTPReportClaim => rc.offset - rs.lowerBounds)
      (fun rc => rc.relative rs.lowerBounds) f (pairwise_values hb) (m := .empty) fun _ _ => rfl
    exact this
  have hsize : (relativeClaims rs.lowerBounds rs.claims.values).size = rs.claims.size := by
    rw [← OrdMap.sum_one, hsum, ← OrdMap.sum_one, OrdMap.values, List.map_map]
    rfl
  simp only at hfew hle
  rw [hsum] at hle
  rw [hsize] at hfew
  have hsmall : rs.claims.size < 2 ^ 31 := by
    have := i32_lt rs.claimCount
    omega
  have hclaims := length_encodeClaims fun rc hrc => hb.claim _ rc (mem_values hb hrc)
  have h₁ := length_encodeField64 hb.engine
  have h₂ := length_encodeField64 hb.session
  have h₃ := length_encodeField64 hb.serial
  have h₄ := length_encodeField64 hb.checkpoint
  have h₅ := length_encodeField64 hb.upper
  have h₆ := length_encodeField64 hb.lower
  have h₇ : (encodeField64 rs.claimCount).length ≤ encodingLen rs.claimCount :=
    (length_encodeField64 (hb.count ▸ hb.few)).1
  have htotal : (encodeSegment (.report rs)).length = 2 + (encodeField64 rs.engineId).length +
      (encodeField64 rs.sessionId).length + ((encodeField64 rs.serialNumber).length +
      ((encodeField64 rs.checkpointId).length + ((encodeField64 rs.upperBounds).length +
      ((encodeField64 rs.lowerBounds).length + (encodeField64 rs.claimCount).length))) +
      (encodeClaims rs.lowerBounds rs.claims.values).length) := by
    simp only [encodeSegment, encodeCounters, List.length_append, length_createLtpHeader]
  refine ⟨⟨?_, ?_⟩, ?_, ?_, ?_, ?_, ?_, hsmall, by omega⟩
  rotate_right
  · by_contra hno
    have := hclaims.2 hno
    omega
  all_goals
    by_contra hno
    omega

/-- A segment that this code builds comes back exactly when its fields fit. -/
theorem decodeBuffer_encodeSegment_iff (seg : WireSegment) (h : WellBuilt seg) :
    RoundTrips seg ↔ Fits seg := by
  cases seg with
  | data ds => exact ⟨fits_data h, roundTrips_data h⟩
  | report rs => exact ⟨fits_report h, roundTrips_report h⟩
  | reportAck seg => exact ⟨fits_reportAck h, roundTrips_reportAck h⟩
  | cancel cs => exact ⟨fits_cancel h, roundTrips_cancel h⟩
  | cancelAck seg => exact ⟨fits_cancelAck h, roundTrips_cancelAck h⟩

/-- The last segment of a red block of five bytes. -/
def lastOfBlock : LTPDataSegment :=
  { engineId := 22, sessionId := 7, segmentType := .ds, redGreen := .red, isCheckpoint := true
    isRedEndofblock := true, checkpointId := 300, serialNumber := 1, clientServiceId := 1
    offset := 0, startByte := 0, stopByte := 4, payloadLength := 5
    payload := [104, 101, 108, 108, 111] }

theorem lastOfBlock_built : DataBuilt lastOfBlock where
  engine := by decide
  session := by decide
  type := rfl
  service := by decide
  checkpoint := by decide
  serial := by decide
  offset := by decide
  length := rfl
  size := by decide
  start := rfl
  stop := by decide +kernel
  color := Or.inl rfl
  red := fun _ => ⟨rfl, fun _ => rfl⟩
  green := by decide
  plain := by decide

theorem decodeBuffer_encodeSegment_lastOfBlock :
    WellBuilt (.data lastOfBlock) ∧ RoundTrips (.data lastOfBlock) := by
  refine ⟨lastOfBlock_built, (decodeBuffer_encodeSegment_iff (.data _) lastOfBlock_built).mpr ?_⟩
  have hseen : (encodeLtpDsHeader lastOfBlock).length ≤
      u64OfInt (i32 (encodeSegment (.data lastOfBlock)).length) := by
    decide +kernel
  exact ⟨⟨by decide, by decide⟩, by decide, by decide, by decide, by decide, by decide, by decide,
    rfl, hseen⟩

/-- An acknowledgment for an engine id of `2 ^ 56`. -/
def farEngineAck : LTPSegment :=
  { engineId := 2 ^ 56, sessionId := 7, segmentType := .ras, serialNumber := 5 }

/-- The engine id is left out of the packet, which then decodes to nothing. -/
theorem decodeBuffer_encodeSegment_drops :
    WellBuilt (.reportAck farEngineAck) ∧ encodeSegment (.reportAck farEngineAck) = [9, 7, 0, 5] ∧
      (decodeBuffer (memOf [9, 7, 0, 5] 0) 4).result = none ∧
      ¬ RoundTrips (.reportAck farEngineAck) := by
  have hbytes : encodeSegment (.reportAck farEngineAck) = [9, 7, 0, 5] := by
    decide +kernel
  have hnone : (decodeBuffer (memOf [9, 7, 0, 5] 0) 4).result = none := by
    decide +kernel
  refine ⟨⟨⟨by decide, by decide⟩, by decide⟩, hbytes, hnone, fun h => ?_⟩
  have hsome := h (memOf [9, 7, 0, 5] 0) (hbytes ▸ holds_memOf _ 0)
  rw [hbytes, List.length_cons, List.length_cons, List.length_cons, List.length_singleton,
    hnone] at hsome
  cases hsome

end Dtnme.Ltp
