import Dtnme.Bundling.SdnvRecord

/-! # Status reports and custody signals of version 6

Both records name a bundle by its creation timestamp, the text of its source and, for a fragment, the
place in the payload. A status report has a time for each of its flags: the builder writes those of
the first five, the parser reads one for the sixth as well.
-/

namespace Dtnme.Bundling.Bp6Admin
open Library Naming SdnvRecord

/-- What a record is made from: the fields of the original bundle. -/
structure Original where
  isFragment : Bool
  fragOffset : UInt64
  fragLength : UInt64
  payloadLength : UInt64
  creationSecs : UInt64
  creationSeqno : UInt64
  source : List UInt8
  custodianIsNull : Bool
  deriving DecidableEq, Repr

namespace Original

def creationTs (o : Original) : ℕ × ℕ := (o.creationSecs.toNat, o.creationSeqno.toNat)

/-- Offset and length of a fragment; a whole bundle has neither. -/
def place (o : Original) (length : UInt64) : ℕ × ℕ :=
  if o.isFragment then (o.fragOffset.toNat, length.toNat) else (0, 0)

/-- The text of the source is that of a valid endpoint id. -/
def HasSource (parse : List UInt8 → Option Uri) (o : Original) : Prop :=
  ∃ e u, Eid.uri? parse e = some u ∧ u.str = o.source

end Original

/-! ## Builders -/

/-- Type and flags of the record. -/
def adminByte (type : UInt8) (o : Original) : UInt8 := type <<< 4 ||| if o.isFragment then 1 else 0

def fragmentLen (o : Original) (length : UInt64) : ℕ :=
  if o.isFragment then encodingLen o.fragOffset.toNat + encodingLen length.toNat else 0

def putFragment (o : Original) (length : UInt64) (s : Scratch) : Except Fault Scratch :=
  if o.isFragment then do
    let s ← putSdnv o.fragOffset.toNat s
    putSdnv length.toNat s
  else .ok s

/-- The bits from `STATUS_RECEIVED` to `STATUS_DELETED`, which the two loops of the builder go
through. -/
def statusBits : List ℕ := [0, 1, 2, 3, 4]

def timesLen (statusFlags : UInt8) (now : ℕ × ℕ) : List ℕ → ℕ
  | [] => 0
  | bit :: bits =>
    (if statusFlags.toNat.testBit bit then tsEncodingLen now else 0) + timesLen statusFlags now bits

def putTimes (statusFlags : UInt8) (now : ℕ × ℕ) : List ℕ → Scratch → Except Fault Scratch
  | [], s => .ok s
  | bit :: bits, s =>
    if statusFlags.toNat.testBit bit then do
      let s ← putTimestamp now s
      putTimes statusFlags now bits s
    else putTimes statusFlags now bits s

/-- Everything before the text of the source. -/
def putStatusFields (o : Original) (now : UInt64) (statusFlags reason : UInt8) (s : Scratch) :
    Except Fault Scratch := do
  let s ← putByte (adminByte 1 o) s
  let s ← putByte statusFlags s
  let s ← putByte reason s
  let s ← putFragment o o.fragLength s
  let s ← putTimes statusFlags (now.toNat, 0) statusBits s
  let s ← putTimestamp o.creationTs s
  putSdnv o.source.length s

def reportLength (o : Original) (now : UInt64) (statusFlags : UInt8) : ℕ :=
  1 + 1 + 1 + fragmentLen o o.fragLength + timesLen statusFlags (now.toNat, 0) statusBits +
    tsEncodingLen o.creationTs + (encodingLen o.source.length + o.source.length)

/-- The payload that `create_status_report` builds at the time `now`. -/
def createStatusReport (o : Original) (now : UInt64) (statusFlags reason : UInt8) :
    Except Fault (List UInt8) :=
  putStatusFields o now statusFlags reason { len := reportLength o now statusFlags } >>=
    putText o.source

/-- Success flag and reason code. -/
def signalByte (succeeded : Bool) (reason : UInt8) : UInt8 :=
  ((if succeeded then 1 else 0 : UInt8) <<< 7) ||| (reason &&& 0x7f)

def putSignalFields (o : Original) (now : UInt64) (succeeded : Bool) (reason : UInt8) (s : Scratch) :
    Except Fault Scratch := do
  let s ← putByte (adminByte 2 o) s
  let s ← putByte (signalByte succeeded reason) s
  let s ← putFragment o o.payloadLength s
  let s ← putTimestamp (now.toNat, 0) s
  let s ← putTimestamp o.creationTs s
  putSdnv o.source.length s

def signalLen (o : Original) (now : UInt64) : ℕ :=
  1 + 1 + fragmentLen o o.payloadLength + tsEncodingLen (now.toNat, 0) +
    tsEncodingLen o.creationTs + (encodingLen o.source.length + o.source.length)

/-- The payload that `create_custody_signal` builds; it panics without a custodian. -/
def createCustodySignal (o : Original) (now : UInt64) (succeeded : Bool) (reason : UInt8) :
    Except Fault (List UInt8) :=
  if o.custodianIsNull then .error .panic
  else putSignalFields o now succeeded reason { len := signalLen o now } >>= putText o.source

/-! ## Parsers -/

/-- `BP6_BundleStatusReport::data_t`. -/
structure StatusReport where
  adminType : UInt8
  adminFlags : UInt8
  statusFlags : UInt8
  reasonCode : UInt8
  origFrag : ℕ × ℕ
  receiptTv : ℕ × ℕ
  custodyTv : ℕ × ℕ
  forwardingTv : ℕ × ℕ
  deliveryTv : ℕ × ℕ
  deletionTv : ℕ × ℕ
  ackByAppTv : ℕ × ℕ
  origCreationTv : ℕ × ℕ
  origSourceEid : Eid

/-- `CustodySignal::data_t`. -/
structure CustodySignal where
  adminType : UInt8
  adminFlags : UInt8
  succeeded : Bool
  reason : UInt8
  origFrag : ℕ × ℕ
  custodySignalTv : ℕ × ℕ
  origCreationTv : ℕ × ℕ
  origSourceEid : Eid

section
variable (parse : List UInt8 → Option Uri) (mem : ℕ → UInt8)

/-- Offset and length of a fragment, else what there is for them. -/
def takeFragment (adminFlags : UInt8) (init : ℕ × ℕ) (c : Cursor) :
    Logged Event ((ℕ × ℕ) × Cursor) :=
  if adminFlags &&& 1 = 1 then takeTimestamp mem c else pure (init, c)

/-- A time, if its flag is set. -/
def takeTime (set : Bool) (c : Cursor) : Logged Event ((ℕ × ℕ) × Cursor) :=
  if set then takeTimestamp mem c else pure ((0, 0), c)

/-- Creation timestamp and source of the original bundle. -/
def takeOrigin (c : Cursor) : Logged Event ((ℕ × ℕ) × Eid) := do
  let (creation, c) ← takeTimestamp mem c
  let eid ← takeText mem c
  if (Eid.mk eid).valid parse then pure (creation, ⟨eid⟩) else Logged.fail

def parseStatusReport (len : ℕ) : Logged Event StatusReport := do
  let (first, c) ← takeByte mem (0, len)
  if first >>> 4 ≠ 1 then Logged.fail
  else do
    let (statusFlags, c) ← takeByte mem c
    let (reasonCode, c) ← takeByte mem c
    let (origFrag, c) ← takeFragment mem (first &&& 0xf) (0, 0) c
    let (receiptTv, c) ← takeTime mem (statusFlags.toNat.testBit 0) c
    let (custodyTv, c) ← takeTime mem (statusFlags.toNat.testBit 1) c
    let (forwardingTv, c) ← takeTime mem (statusFlags.toNat.testBit 2) c
    let (deliveryTv, c) ← takeTime mem (statusFlags.toNat.testBit 3) c
    let (deletionTv, c) ← takeTime mem (statusFlags.toNat.testBit 4) c
    let (ackByAppTv, c) ← takeTime mem (statusFlags.toNat.testBit 5) c
    let (origCreationTv, origSourceEid) ← takeOrigin parse mem c
    pure { adminType := first >>> 4, adminFlags := first &&& 0xf, statusFlags, reasonCode, origFrag,
           receiptTv, custodyTv, forwardingTv, deliveryTv, deletionTv, ackByAppTv, origCreationTv,
           origSourceEid }

/-- A signal for a whole bundle leaves the two fragment fields as they were. -/
def parseCustodySignal (init : ℕ × ℕ) (len : ℕ) : Logged Event CustodySignal := do
  let (first, c) ← takeByte mem (0, len)
  if first >>> 4 ≠ 2 then Logged.fail
  else do
    let (second, c) ← takeByte mem c
    let (origFrag, c) ← takeFragment mem (first &&& 0xf) init c
    let (custodySignalTv, c) ← takeTimestamp mem c
    let (origCreationTv, origSourceEid) ← takeOrigin parse mem c
    pure { adminType := first >>> 4, adminFlags := first &&& 0xf, succeeded := second >>> 7 ≠ 0,
           reason := second &&& 0x7f, origFrag, custodySignalTv, origCreationTv, origSourceEid }

end

/-! ## What the builders write -/

def fragmentBytes (o : Original) (length : UInt64) : List UInt8 :=
  if o.isFragment then timestamp (o.fragOffset.toNat, length.toNat) else []

def timesBytes (statusFlags : UInt8) (now : ℕ × ℕ) : List ℕ → List UInt8
  | [] => []
  | bit :: bits => (if statusFlags.toNat.testBit bit then timestamp now else []) ++
      timesBytes statusFlags now bits

/-- The bytes that name the original bundle. -/
def originBytes (o : Original) : List UInt8 :=
  timestamp o.creationTs ++ (sdnv o.source.length ++ o.source)

def statusBytes (o : Original) (now : UInt64) (statusFlags reason : UInt8) : List UInt8 :=
  adminByte 1 o :: statusFlags :: reason :: (fragmentBytes o o.fragLength ++
    (timesBytes statusFlags (now.toNat, 0) statusBits ++ originBytes o))

def signalBytes (o : Original) (now : UInt64) (succeeded : Bool) (reason : UInt8) : List UInt8 :=
  adminByte 2 o :: signalByte succeeded reason :: (fragmentBytes o o.payloadLength ++
    (timestamp (now.toNat, 0) ++ originBytes o))

theorem length_fragmentBytes (o : Original) (length : UInt64) :
    (fragmentBytes o length).length = fragmentLen o length := by
  unfold fragmentBytes fragmentLen
  split_ifs
  · exact length_timestamp o.fragOffset.toNat_lt length.toNat_lt
  · rfl

theorem length_timesBytes (statusFlags : UInt8) (now : UInt64) (bits : List ℕ) :
    (timesBytes statusFlags (now.toNat, 0) bits).length = timesLen statusFlags (now.toNat, 0) bits := by
  induction bits with
  | nil => rfl
  | cons bit bits ih =>
    rw [timesBytes, timesLen, List.length_append, ih]
    split_ifs
    · rw [length_timestamp now.toNat_lt (by norm_num)]
    · rfl

theorem writes_putFragment (o : Original) (length : UInt64) :
    Writes (putFragment o length) (fragmentBytes o length) := by
  unfold putFragment fragmentBytes
  split_ifs
  · exact (writes_putSdnv o.fragOffset.toNat_lt).bind (writes_putSdnv length.toNat_lt)
  · exact Writes.none

theorem writes_putTimes (statusFlags : UInt8) (now : UInt64) (bits : List ℕ) :
    Writes (putTimes statusFlags (now.toNat, 0) bits)
      (timesBytes statusFlags (now.toNat, 0) bits) := by
  induction bits with
  | nil => exact Writes.none
  | cons bit bits ih =>
    intro s
    rw [putTimes, timesBytes]
    split_ifs
    · exact (writes_putTimestamp now.toNat_lt (by norm_num)).bind ih s
    · exact ih s

theorem writes_creation (o : Original) : Writes (putTimestamp o.creationTs) (timestamp o.creationTs) :=
  writes_putTimestamp o.creationSecs.toNat_lt o.creationSeqno.toNat_lt

theorem length_creation (o : Original) :
    (timestamp o.creationTs).length = tsEncodingLen o.creationTs :=
  length_timestamp o.creationSecs.toNat_lt o.creationSeqno.toNat_lt

/-- The counted length is the length of what is written, for any flags. -/
theorem createStatusReport_eq {o : Original} (hlen : o.source.length < 2 ^ 64) (now : UInt64)
    (statusFlags reason : UInt8) :
    createStatusReport o now statusFlags reason = .ok (statusBytes o now statusFlags reason) := by
  have hwrites : Writes (putStatusFields o now statusFlags reason)
      ([adminByte 1 o] ++ ([statusFlags] ++ ([reason] ++ (fragmentBytes o o.fragLength ++
        (timesBytes statusFlags (now.toNat, 0) statusBits ++
          (timestamp o.creationTs ++ sdnv o.source.length)))))) :=
    (writes_putByte _).bind ((writes_putByte _).bind ((writes_putByte _).bind
      ((writes_putFragment o _).bind ((writes_putTimes _ now _).bind
        ((writes_creation o).bind (writes_putSdnv hlen))))))
  rw [createStatusReport, hwrites.putText (by
    simp only [reportLength, List.length_append, List.length_singleton, length_fragmentBytes,
      length_timesBytes, length_creation, length_sdnv hlen]
    omega)]
  simp [statusBytes, originBytes]

theorem createCustodySignal_eq {o : Original} (hlen : o.source.length < 2 ^ 64)
    (hcustodian : o.custodianIsNull = false) (now : UInt64) (succeeded : Bool) (reason : UInt8) :
    createCustodySignal o now succeeded reason = .ok (signalBytes o now succeeded reason) := by
  have hwrites : Writes (putSignalFields o now succeeded reason)
      ([adminByte 2 o] ++ ([signalByte succeeded reason] ++ (fragmentBytes o o.payloadLength ++
        (timestamp (now.toNat, 0) ++ (timestamp o.creationTs ++ sdnv o.source.length))))) :=
    (writes_putByte _).bind ((writes_putByte _).bind ((writes_putFragment o _).bind
      ((writes_putTimestamp now.toNat_lt (by norm_num)).bind
        ((writes_creation o).bind (writes_putSdnv hlen)))))
  have hnow : (timestamp (now.toNat, 0)).length = tsEncodingLen (now.toNat, 0) :=
    length_timestamp now.toNat_lt (by norm_num)
  rw [createCustodySignal, if_neg (by simp [hcustodian]), hwrites.putText (by
    simp only [signalLen, List.length_append, List.length_singleton, length_fragmentBytes, hnow,
      length_creation, length_sdnv hlen]
    omega)]
  simp [signalBytes, originBytes]

/-! ## What the parsers read -/

theorem adminByte_shift (o : Original) : adminByte 1 o >>> 4 = 1 ∧ adminByte 2 o >>> 4 = 2 := by
  unfold adminByte
  split_ifs <;> decide

/-- The flag of a fragment, for both types. -/
theorem adminByte_flag (o : Original) :
    adminByte 1 o &&& 0xf = (if o.isFragment then 1 else 0) ∧
      adminByte 2 o &&& 0xf = (if o.isFragment then 1 else 0) := by
  unfold adminByte
  split_ifs <;> decide

theorem signalByte_bits (succeeded : Bool) (reason : UInt8) :
    decide (signalByte succeeded reason >>> 7 ≠ 0) = succeeded ∧
      (signalByte succeeded reason &&& 0x7f) = (reason &&& 0x7f) := by
  have hall : ∀ (s : Bool) (r : Fin 256), decide (signalByte s (.ofFin r) >>> 7 ≠ 0) = s ∧
      (signalByte s (.ofFin r) &&& 0x7f) = (UInt8.ofFin r &&& 0x7f) := by decide +kernel
  exact hall succeeded reason.toFin

/-- A reason of seven bits. -/
theorem reason_low {reason : UInt8} (h : reason < 128) : reason &&& 0x7f = reason := by
  have hall : ∀ r : Fin 256, UInt8.ofFin r < 128 → UInt8.ofFin r &&& 0x7f = UInt8.ofFin r := by
    decide +kernel
  exact hall reason.toFin h

section
variable {parse : List UInt8 → Option Uri} {mem : ℕ → UInt8}

theorem takeFragment_reads {o : Original} {length : UInt64} {c : Cursor} {rest : List UInt8}
    (init : ℕ × ℕ) (h : Reads mem c (fragmentBytes o length ++ rest)) :
    ∃ c', (takeFragment mem (if o.isFragment then 1 else 0) init c).result =
      some (if o.isFragment then (o.fragOffset.toNat, length.toNat) else init, c') ∧
        Reads mem c' rest := by
  unfold takeFragment
  unfold fragmentBytes at h
  split_ifs at h ⊢
  · exact takeTimestamp_reads o.fragOffset.toNat_lt length.toNat_lt h
  · contradiction
  · contradiction
  · exact ⟨c, rfl, h⟩

theorem takeTime_reads {set : Bool} {tv : ℕ × ℕ} {c : Cursor} {rest : List UInt8}
    (h₁ : tv.1 < 2 ^ 64) (h₂ : tv.2 < 2 ^ 64)
    (h : Reads mem c ((if set then timestamp tv else []) ++ rest)) :
    ∃ c', (takeTime mem set c).result = some (if set then tv else (0, 0), c') ∧
      Reads mem c' rest := by
  unfold takeTime
  split_ifs at h ⊢
  · exact takeTimestamp_reads h₁ h₂ h
  · exact ⟨c, rfl, h⟩

variable (parse) in
theorem takeOrigin_reads {o : Original} {c : Cursor} (hlen : o.source.length < 2 ^ 64)
    (h : Reads mem c (originBytes o)) : (takeOrigin parse mem c).result =
      if (Eid.mk o.source).valid parse then some (o.creationTs, ⟨o.source⟩) else none := by
  obtain ⟨c', hcreation, h⟩ :=
    takeTimestamp_reads o.creationSecs.toNat_lt o.creationSeqno.toNat_lt h
  have htext := takeText_reads hlen h
  change (takeTimestamp mem c).result = some (o.creationTs, c') at hcreation
  rw [takeOrigin]
  simp only [Logged.result_bind, hcreation, htext, Option.bind_some]
  split_ifs <;> rfl

theorem wp_takeFragment {length : ℕ} {c : Cursor} {q : (ℕ × ℕ) × Cursor → Prop}
    {adminFlags : UInt8} {init : ℕ × ℕ} (h : Spans length c)
    (hq : ∀ frag c', Spans length c' → q (frag, c')) :
    (takeFragment mem adminFlags init c).Wp (Ltp.Safe length) q := by
  unfold takeFragment
  split_ifs
  · exact wp_takeTimestamp h hq
  · exact (Logged.wp_pure _).mpr (hq _ c h)

theorem wp_takeTime {length : ℕ} {c : Cursor} {q : (ℕ × ℕ) × Cursor → Prop} {set : Bool}
    (h : Spans length c) (hq : ∀ tv c', Spans length c' → q (tv, c')) :
    (takeTime mem set c).Wp (Ltp.Safe length) q := by
  unfold takeTime
  split_ifs
  · exact wp_takeTimestamp h hq
  · exact (Logged.wp_pure _).mpr (hq _ c h)

theorem wp_takeOrigin {length : ℕ} {c : Cursor} {q : (ℕ × ℕ) × Eid → Prop} (h : Spans length c)
    (hq : ∀ r, q r) : (takeOrigin parse mem c).Wp (Ltp.Safe length) q := by
  rw [takeOrigin, Logged.wp_bind]
  refine wp_takeTimestamp h fun creation c' h' => ?_
  rw [Logged.wp_bind]
  refine ⟨(wp_takeText h').1, fun eid _ => ?_⟩
  simp only
  split_ifs
  · exact (Logged.wp_pure _).mpr (hq _)
  · exact Logged.wp_fail

/-- With another time before it, the text is shorter than the source. -/
theorem takeOrigin_length_lt {o : Original} {c c' : Cursor} {time : ℕ × ℕ} {r : (ℕ × ℕ) × Eid}
    (hlen : o.source.length < 2 ^ 14) (h : Reads mem c (originBytes o))
    (htime : (takeTimestamp mem c).result = some (time, c'))
    (hr : (takeOrigin parse mem c').result = some r) : r.2.key.length < o.source.length := by
  obtain ⟨c₁, hcreation, -, hc₁⟩ :=
    takeTimestamp_reads o.creationSecs.toNat_lt o.creationSeqno.toNat_lt h
  have hc : c' = c₁ := by
    rw [htime] at hcreation
    cases hcreation
    rfl
  have hshort : encodingLen o.source.length ≤ 2 :=
    (encodingLen_le_iff (by omega) (by norm_num)).mpr (lt_of_lt_of_le hlen (by norm_num))
  rw [List.length_append, length_sdnv (by omega), ← hc] at hc₁
  rw [takeOrigin, Logged.result_bind_eq_some] at hr
  obtain ⟨⟨tv, c₂⟩, htv, hr⟩ := hr
  rw [takeTimestamp, Logged.result_bind_eq_some] at htv
  obtain ⟨⟨secs, c₃⟩, hsecs, htv⟩ := htv
  rw [Logged.result_bind_eq_some] at htv
  obtain ⟨⟨seqno, c₄⟩, hseqno, htv⟩ := htv
  cases htv
  simp only [Logged.result_bind_eq_some] at hr
  obtain ⟨eid, heid, hr⟩ := hr
  have h₁ := takeSdnv_lt hsecs
  have h₂ := takeSdnv_lt hseqno
  have h₃ := takeText_lt heid
  split_ifs at hr
  · cases hr
    simp only
    omega
  · cases hr

/-- The status report of the builder, with what is read for the sixth flag and of the origin. -/
def reportOf (o : Original) (now : UInt64) (statusFlags reason : UInt8) (ack creation : ℕ × ℕ)
    (eid : Eid) : StatusReport :=
  let time (bit : ℕ) : ℕ × ℕ := if statusFlags.toNat.testBit bit then (now.toNat, 0) else (0, 0)
  { adminType := 1, adminFlags := if o.isFragment then 1 else 0, statusFlags, reasonCode := reason,
    origFrag := o.place o.fragLength, receiptTv := time 0, custodyTv := time 1,
    forwardingTv := time 2, deliveryTv := time 3, deletionTv := time 4, ackByAppTv := ack,
    origCreationTv := creation, origSourceEid := eid }

variable (parse) in
/-- Up to the sixth flag the parser reads what the builder wrote. -/
theorem parseStatusReport_bytes {o : Original} {now : UInt64} {statusFlags reason : UInt8}
    (h : Holds mem 0 (statusBytes o now statusFlags reason)) :
    ∃ c, Reads mem c (originBytes o) ∧
      (parseStatusReport parse mem (statusBytes o now statusFlags reason).length).result =
        (takeTime mem (statusFlags.toNat.testBit 5) c).result.bind fun r =>
          (takeOrigin parse mem r.2).result.map fun r' =>
            reportOf o now statusFlags reason r.1 r'.1 r'.2 := by
  have hnow := now.toNat_lt
  have hzero : 0 < 2 ^ 64 := by norm_num
  have hreads : Reads mem (0, (statusBytes o now statusFlags reason).length)
      (statusBytes o now statusFlags reason) := ⟨h, rfl⟩
  obtain ⟨c₁, hfirst, hreads⟩ := takeByte_reads hreads
  obtain ⟨c₂, hflags, hreads⟩ := takeByte_reads hreads
  obtain ⟨c₃, hreason, hreads⟩ := takeByte_reads hreads
  obtain ⟨c₄, hfrag, hreads⟩ := takeFragment_reads (0, 0) hreads
  simp only [statusBits, timesBytes, List.nil_append, List.append_assoc] at hreads
  obtain ⟨c₅, hreceipt, hreads⟩ := takeTime_reads hnow hzero hreads
  obtain ⟨c₆, hcustody, hreads⟩ := takeTime_reads hnow hzero hreads
  obtain ⟨c₇, hforwarding, hreads⟩ := takeTime_reads hnow hzero hreads
  obtain ⟨c₈, hdelivery, hreads⟩ := takeTime_reads hnow hzero hreads
  obtain ⟨c₉, hdeletion, hreads⟩ := takeTime_reads hnow hzero hreads
  refine ⟨c₉, hreads, ?_⟩
  rw [parseStatusReport]
  simp only [Logged.result_bind, hfirst, Option.bind_some, (adminByte_shift o).1, ne_eq,
    not_true_eq_false, if_false, hflags, hreason, (adminByte_flag o).1, hfrag, hreceipt, hcustody,
    hforwarding, hdelivery, hdeletion]
  cases (takeTime mem (statusFlags.toNat.testBit 5) c₉).result with
  | none => rfl
  | some r =>
    simp only [Option.bind_some]
    cases (takeOrigin parse mem r.2).result with
    | none => rfl
    | some r' => rfl

/-- The custody signal of the builder. -/
def signalOf (o : Original) (now : UInt64) (succeeded : Bool) (reason : UInt8) (init : ℕ × ℕ)
    (creation : ℕ × ℕ) (eid : Eid) : CustodySignal :=
  { adminType := 2, adminFlags := if o.isFragment then 1 else 0, succeeded,
    reason := reason &&& 0x7f,
    origFrag := if o.isFragment then (o.fragOffset.toNat, o.payloadLength.toNat) else init,
    custodySignalTv := (now.toNat, 0), origCreationTv := creation, origSourceEid := eid }

variable (parse) in
theorem parseCustodySignal_bytes {o : Original} {now : UInt64} {succeeded : Bool} {reason : UInt8}
    (init : ℕ × ℕ) (h : Holds mem 0 (signalBytes o now succeeded reason)) :
    ∃ c, Reads mem c (originBytes o) ∧
      (parseCustodySignal parse mem init (signalBytes o now succeeded reason).length).result =
        (takeOrigin parse mem c).result.map fun r =>
          signalOf o now succeeded reason init r.1 r.2 := by
  have hnow : (now.toNat, 0).1 < 2 ^ 64 := now.toNat_lt
  have hreads : Reads mem (0, (signalBytes o now succeeded reason).length)
      (signalBytes o now succeeded reason) := ⟨h, rfl⟩
  obtain ⟨c₁, hfirst, hreads⟩ := takeByte_reads hreads
  obtain ⟨c₂, hsecond, hreads⟩ := takeByte_reads hreads
  obtain ⟨c₃, hfrag, hreads⟩ := takeFragment_reads init hreads
  obtain ⟨c₄, htime, hreads⟩ :=
    takeTimestamp_reads hnow (show (now.toNat, 0).2 < 2 ^ 64 by norm_num) hreads
  obtain ⟨hsucceeded, hreason⟩ := signalByte_bits succeeded reason
  simp only [ne_eq] at hsucceeded
  refine ⟨c₄, hreads, ?_⟩
  rw [parseCustodySignal]
  simp only [Logged.result_bind, hfirst, Option.bind_some, (adminByte_shift o).2, ne_eq,
    not_true_eq_false, if_false, hsecond, (adminByte_flag o).2, hfrag, htime]
  cases (takeOrigin parse mem c₄).result with
  | none => rfl
  | some r =>
    simp only [Option.bind_some, Option.map_some, Logged.result_pure, signalOf, hreason, hsucceeded]

theorem parseStatusReport_safe (parse : List UInt8 → Option Uri) (mem : ℕ → UInt8) (len : ℕ) :
    (parseStatusReport parse mem len).All (Ltp.Safe len) := by
  rw [parseStatusReport, ← Logged.wp_true, Logged.wp_bind]
  refine wp_takeByte (zero_add len) fun first c hc => ?_
  dsimp only
  split_ifs
  · exact Logged.wp_fail
  rw [Logged.wp_bind]
  refine wp_takeByte hc fun statusFlags c hc => ?_
  rw [Logged.wp_bind]
  refine wp_takeByte hc fun reason c hc => ?_
  rw [Logged.wp_bind]
  refine wp_takeFragment hc fun origFrag c hc => ?_
  rw [Logged.wp_bind]
  refine wp_takeTime hc fun receiptTv c hc => ?_
  rw [Logged.wp_bind]
  refine wp_takeTime hc fun custodyTv c hc => ?_
  rw [Logged.wp_bind]
  refine wp_takeTime hc fun forwardingTv c hc => ?_
  rw [Logged.wp_bind]
  refine wp_takeTime hc fun deliveryTv c hc => ?_
  rw [Logged.wp_bind]
  refine wp_takeTime hc fun deletionTv c hc => ?_
  rw [Logged.wp_bind]
  refine wp_takeTime hc fun ackByAppTv c hc => ?_
  rw [Logged.wp_bind]
  exact wp_takeOrigin hc fun r => (Logged.wp_pure _).mpr trivial

theorem parseCustodySignal_safe (parse : List UInt8 → Option Uri) (mem : ℕ → UInt8)
    (init : ℕ × ℕ) (len : ℕ) : (parseCustodySignal parse mem init len).All (Ltp.Safe len) := by
  rw [parseCustodySignal, ← Logged.wp_true, Logged.wp_bind]
  refine wp_takeByte (zero_add len) fun first c hc => ?_
  dsimp only
  split_ifs
  · exact Logged.wp_fail
  rw [Logged.wp_bind]
  refine wp_takeByte hc fun second c hc => ?_
  rw [Logged.wp_bind]
  refine wp_takeFragment hc fun origFrag c hc => ?_
  rw [Logged.wp_bind]
  refine wp_takeTimestamp hc fun custodySignalTv c hc => ?_
  rw [Logged.wp_bind]
  exact wp_takeOrigin hc fun r => (Logged.wp_pure _).mpr trivial

end

/-! ## Round trips -/

section
variable (parse : List UInt8 → Option Uri)

/-- The id has a text. -/
def SameText (e : Eid) (t : List UInt8) : Prop := (e.uri? parse).map Uri.str = some t

/-- The text of an id makes an id of the same text. -/
def Restored (t : List UInt8) : Prop := SameText parse ⟨t⟩ t

/-- Any report that the builder makes is parsed again, wherever it lies, into what it was made
from. -/
def StatusRoundTrip (o : Original) (now : UInt64) (statusFlags reason : UInt8) : Prop :=
  ∃ payload, createStatusReport o now statusFlags reason = .ok payload ∧
    ∀ mem, Holds mem 0 payload →
      ∃ d, (parseStatusReport parse mem payload.length).result = some d ∧
        d.statusFlags = statusFlags ∧ d.reasonCode = reason ∧ d.origFrag = o.place o.fragLength ∧
        d.origCreationTv = o.creationTs ∧ SameText parse d.origSourceEid o.source

def SignalRoundTrip (o : Original) (now : UInt64) (succeeded : Bool) (reason : UInt8)
    (init : ℕ × ℕ) : Prop :=
  ∃ payload, createCustodySignal o now succeeded reason = .ok payload ∧
    ∀ mem, Holds mem 0 payload →
      ∃ d, (parseCustodySignal parse mem init payload.length).result = some d ∧
        d.succeeded = succeeded ∧ d.reason = reason ∧ d.origFrag = o.place o.payloadLength ∧
        d.origCreationTv = o.creationTs ∧ SameText parse d.origSourceEid o.source

end

variable {parse : List UInt8 → Option Uri}

theorem SameText.valid {e : Eid} {t : List UInt8} (h : SameText parse e t) : e.valid parse = true := by
  unfold SameText at h
  rw [Eid.valid]
  cases hu : e.uri? parse with
  | none => simp [hu] at h
  | some u => rfl

/-- The text of a known scheme is always restored. -/
theorem restored_of_scheme (hU : IsUri parse) {e : Eid} {u : Uri} (hu : e.uri? parse = some u)
    (hs : u.scheme?.isSome) : Restored parse u.str := by
  obtain ⟨hp, hv⟩ := Eid.uri?_eq_some.mp hu
  have hu' : (Eid.mk u.str).uri? parse = some u := Eid.uri?_eq_some.mpr ⟨hU.reparse hp hv hs, hv⟩
  rw [Restored, SameText, hu', Option.map_some]

theorem Original.HasSource.length_lt {o : Original} (h : o.HasSource parse) :
    o.source.length < 2 ^ 14 := by
  obtain ⟨e, u, hu, hstr⟩ := h
  obtain ⟨-, hv⟩ := Eid.uri?_eq_some.mp hu
  rw [Uri.validate, Bool.and_eq_true, Uri.fits, Bool.and_eq_true, decide_eq_true_eq,
    decide_eq_true_eq] at hv
  obtain ⟨⟨hscheme, hssp⟩, -⟩ := hv
  have hcolon : (text ":").length = 1 := by decide
  rw [← hstr, Uri.str, List.length_append, List.length_append, hcolon]
  unfold maxPartLength at hscheme hssp
  omega

/-- An id made from a text does not get longer in its normal form. -/
theorem SameText.length_le (hshort : ∀ {t u}, parse t = some u → u.str.length ≤ t.length) {e : Eid}
    {t : List UInt8} (h : SameText parse e t) : t.length ≤ e.key.length := by
  rw [SameText, Option.map_eq_some_iff] at h
  obtain ⟨u, hu, hstr⟩ := h
  rw [← hstr]
  exact hshort (Eid.uri?_eq_some.mp hu).1

theorem statusRoundTrip_iff (hshort : ∀ {t u}, parse t = some u → u.str.length ≤ t.length)
    {o : Original} (ho : o.HasSource parse) (now : UInt64) (statusFlags reason : UInt8) :
    StatusRoundTrip parse o now statusFlags reason ↔
      statusFlags.toNat.testBit 5 = false ∧ Restored parse o.source := by
  have hlen := ho.length_lt
  have hcreate := createStatusReport_eq (lt_trans hlen (by norm_num)) now statusFlags reason
  constructor
  · rintro ⟨payload, hpayload, hparse⟩
    rw [hcreate] at hpayload
    cases hpayload
    have hmem := holds_memOf (statusBytes o now statusFlags reason) 0
    obtain ⟨d, hd, -, -, -, -, htext⟩ := hparse _ hmem
    obtain ⟨c, hreads, hresult⟩ := parseStatusReport_bytes parse hmem
    rw [hresult, Option.bind_eq_some_iff] at hd
    obtain ⟨⟨ack, c'⟩, htime, hd⟩ := hd
    rw [Option.map_eq_some_iff] at hd
    obtain ⟨r, hr, rfl⟩ := hd
    change SameText parse r.2 o.source at htext
    cases hbit : statusFlags.toNat.testBit 5 with
    | true =>
      -- the creation timestamp is taken for the time of the sixth flag
      rw [hbit, takeTime, if_pos rfl] at htime
      have hlt := takeOrigin_length_lt hlen hreads htime hr
      have hle := htext.length_le hshort
      omega
    | false =>
      rw [hbit, takeTime, if_neg (by simp)] at htime
      cases htime
      simp only at hr
      rw [takeOrigin_reads parse (lt_trans hlen (by norm_num)) hreads] at hr
      split_ifs at hr
      cases hr
      exact ⟨rfl, htext⟩
  · rintro ⟨hbit, hrestored⟩
    refine ⟨_, hcreate, fun mem hmem => ?_⟩
    obtain ⟨c, hreads, hresult⟩ := parseStatusReport_bytes parse hmem
    have horigin := takeOrigin_reads parse (lt_trans hlen (by norm_num)) hreads
    rw [if_pos hrestored.valid] at horigin
    refine ⟨reportOf o now statusFlags reason (0, 0) o.creationTs ⟨o.source⟩, ?_, rfl, rfl, rfl, rfl,
      hrestored⟩
    rw [hresult, hbit]
    simp [takeTime, horigin]

theorem signalRoundTrip_iff {o : Original} (ho : o.HasSource parse) (now : UInt64)
    (succeeded : Bool) {reason : UInt8} (hreason : reason < 128) (init : ℕ × ℕ) :
    SignalRoundTrip parse o now succeeded reason init ↔
      o.custodianIsNull = false ∧ (o.isFragment = true ∨ init = (0, 0)) ∧
        Restored parse o.source := by
  have hlen : o.source.length < 2 ^ 64 := lt_trans ho.length_lt (by norm_num)
  constructor
  · rintro ⟨payload, hpayload, hparse⟩
    cases hnull : o.custodianIsNull with
    | true =>
      rw [createCustodySignal, if_pos hnull] at hpayload
      cases hpayload
    | false =>
      rw [createCustodySignal_eq hlen hnull] at hpayload
      cases hpayload
      have hmem := holds_memOf (signalBytes o now succeeded reason) 0
      obtain ⟨d, hd, -, -, hfrag, -, htext⟩ := hparse _ hmem
      obtain ⟨c, hreads, hresult⟩ := parseCustodySignal_bytes parse init hmem
      rw [hresult, takeOrigin_reads parse hlen hreads] at hd
      split_ifs at hd
      · cases hd
        refine ⟨rfl, ?_, htext⟩
        simp only [signalOf, Original.place] at hfrag
        split_ifs at hfrag with hfragment
        · exact Or.inl hfragment
        · exact Or.inr hfrag
      · cases hd
  · rintro ⟨hnull, hplace, hrestored⟩
    refine ⟨_, createCustodySignal_eq hlen hnull now succeeded reason, fun mem hmem => ?_⟩
    obtain ⟨c, hreads, hresult⟩ := parseCustodySignal_bytes parse init hmem
    rw [takeOrigin_reads parse hlen hreads, if_pos hrestored.valid] at hresult
    refine ⟨_, hresult, rfl, reason_low hreason, ?_, rfl, hrestored⟩
    simp only [signalOf, Original.place]
    split_ifs with hfragment
    · rfl
    · exact hplace.resolve_left hfragment

/-- Both records restore what they were made from exactly when the flags end with `STATUS_DELETED`,
there is a custodian and the fragment fields of a whole bundle were zero before; no parser reads
behind its bytes. -/
theorem adminRecords_roundTrip (hshort : ∀ {t u}, parse t = some u → u.str.length ≤ t.length) :
    (∀ o : Original, o.HasSource parse → ∀ now statusFlags reason,
      (StatusRoundTrip parse o now statusFlags reason ↔
        statusFlags.toNat.testBit 5 = false ∧ Restored parse o.source)) ∧
    (∀ o : Original, o.HasSource parse → ∀ now succeeded reason init, reason < 128 →
      (SignalRoundTrip parse o now succeeded reason init ↔
        o.custodianIsNull = false ∧ (o.isFragment = true ∨ init = (0, 0)) ∧
          Restored parse o.source)) ∧
    ∀ mem init len, (parseStatusReport parse mem len).All (Ltp.Safe len) ∧
      (parseCustodySignal parse mem init len).All (Ltp.Safe len) :=
  ⟨fun _ ho now statusFlags reason => statusRoundTrip_iff hshort ho now statusFlags reason,
    fun _ ho now succeeded _ init hreason => signalRoundTrip_iff ho now succeeded hreason init,
    fun mem init len => ⟨parseStatusReport_safe parse mem len,
      parseCustodySignal_safe parse mem init len⟩⟩

/-- A fragment of a bundle from `dtn://a`. -/
def someOriginal : Original :=
  { isFragment := true, fragOffset := 300, fragLength := 70, payloadLength := 70,
    creationSecs := 0xffffffffffffffff, creationSeqno := 5, source := text "dtn://a",
    custodianIsNull := false }

theorem someOriginal_hasSource : someOriginal.HasSource splitUri :=
  ⟨⟨text "dtn://a"⟩, ⟨text "dtn", text "//a", text "a", []⟩, by decide +kernel, by decide +kernel⟩

theorem someOriginal_restored : Restored splitUri someOriginal.source := by
  unfold Restored SameText
  decide +kernel

theorem splitUri_length_le {t : List UInt8} {u : Uri} (h : splitUri t = some u) :
    u.str.length ≤ t.length := le_of_eq (congrArg _ (splitUri_str h))

theorem adminRecords_restored : StatusRoundTrip splitUri someOriginal 700000000 0x1f 0 ∧
    SignalRoundTrip splitUri someOriginal 700000000 true 3 (7, 7) :=
  have h := adminRecords_roundTrip splitUri_length_le
  ⟨(h.1 someOriginal someOriginal_hasSource 700000000 0x1f 0).mpr
      ⟨by decide, someOriginal_restored⟩,
    (h.2.1 someOriginal someOriginal_hasSource 700000000 true 3 (7, 7) (by decide)).mpr
      ⟨rfl, Or.inl rfl, someOriginal_restored⟩⟩

/-- An acknowledgement of the application is not read back. -/
theorem ackedByApp_lost : someOriginal.HasSource splitUri ∧
    ¬ StatusRoundTrip splitUri someOriginal 700000000 0x20 0 := by
  refine ⟨someOriginal_hasSource, fun h => ?_⟩
  have hbit := ((statusRoundTrip_iff splitUri_length_le someOriginal_hasSource 700000000 0x20 0).mp
    h).1
  exact absurd hbit (by decide)

end Dtnme.Bundling.Bp6Admin
