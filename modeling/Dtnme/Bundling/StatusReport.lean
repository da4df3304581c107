import Dtnme.Bundling.CborEncoder
import Dtnme.Bundling.FragmentWire

/-! # Making a status report

A report is encoded twice, first without a buffer for the number of its bytes and then into a buffer of
that size. The clock is read for each of the four indications in both passes.
-/

namespace Dtnme.Bundling
open Library Naming TinyCbor

/-! ## Endpoint ids and creation times -/

namespace TinyCbor.CborEncoder

/-- `cbor_encode_text_string`. -/
def encodeTextString (e : CborEncoder) (s : List UInt8) : CborEncoder :=
  (e.encodeNumber s.length 3).appendToBuffer s

theorem encodeTextString_eq (e : CborEncoder) (s : List UInt8) :
    e.encodeTextString s = e.wrote 1 (Cbor.head 3 s.length ++ s) := by
  simp only [encodeTextString, encodeNumber, encodeNumberNoUpdate, appendToBuffer, saturatedDecrement,
    EncoderData.append_append]
  rfl

end TinyCbor.CborEncoder

namespace CborUtilBP7

/-- `encode_bundle_timestamp`. -/
def encodeBundleTimestamp (e : CborEncoder) (ts : UInt64 × UInt64) : Except Failure CborEncoder :=
  e.encodeArray 2 fun a => .ok ((a.encodeUint ts.1.toNat).encodeUint ts.2.toNat)

def encodeEidDtnNone (e : CborEncoder) : Except Failure CborEncoder :=
  e.encodeArray 2 fun a => .ok ((a.encodeUint schemaTypeDtn).encodeUint 0)

section
variable (parse : List UInt8 → Option Uri)

def encodeEidDtn (e : CborEncoder) (eid : Eid) : Except Failure CborEncoder :=
  e.encodeArray 2 fun a =>
    .ok ((a.encodeUint schemaTypeDtn).encodeTextString (((parse eid.key).map Uri.ssp).getD []))

/-- `encode_eid_ipn` and `encode_eid_imc`. -/
def encodeEidNumbers (e : CborEncoder) (eid : Eid) (schemeCode : ℕ) : Except Failure CborEncoder :=
  if eid.valid parse then
    e.encodeArray 2 fun a => (a.encodeUint schemeCode).encodeArray 2 fun ssp =>
      .ok ((ssp.encodeUint (eid.nodeNum parse)).encodeUint (eid.serviceNum parse))
  else .error .fail

def encodeEid (e : CborEncoder) (eid : Eid) : Except Failure CborEncoder :=
  if eid.isNull parse then encodeEidDtnNone e
  else
    match eid.scheme? parse with
    | some .ipn => encodeEidNumbers parse e eid schemaTypeIpn
    | some .imc => encodeEidNumbers parse e eid schemaTypeImc
    | some .dtn => encodeEidDtn parse e eid
    | _ => .error .fail

end

end CborUtilBP7

/-! ## The report -/

namespace BundleStatusReport

def adminStatusReport : ℕ := 1

def statusReceived : ℕ := 0x01
def statusForwarded : ℕ := 0x04
def statusDelivered : ℕ := 0x08
def statusDeleted : ℕ := 0x10

/-- What is read of the bundle that is reported. -/
structure OrigBundle where
  source : Eid
  replyto : Eid := makeEidNull
  creationTs : UInt64 × UInt64 := (0, 0)
  isFragment : Bool := false
  fragOffset : UInt64 := 0
  fragLength : UInt64 := 0
  expirationMillis : UInt64 := 0
  reqTimeInStatusRpt : Bool := false

/-- The bundle of the report, as it is filled in. -/
structure ReportBundle where
  source : Eid
  dest : Eid
  replyto : Eid := makeEidNull
  custodian : Eid := makeEidNull
  isAdmin : Bool := true
  expirationMillis : UInt64
  payload : Option (List UInt8) := none

def indicated (statusFlags flag : ℕ) : ℕ := if statusFlags &&& flag ≠ 0 then 1 else 0

def encodeIndicator (e : CborEncoder) (indicated : ℕ) (includeTimestamp : Bool) (timestamp : UInt64) :
    Except Failure CborEncoder :=
  let arraySize := if indicated = 1 ∧ includeTimestamp then 2 else 1
  e.encodeArray arraySize fun a =>
    let a := a.encodeUint indicated
    .ok (if arraySize = 2 then a.encodeUint timestamp.toNat else a)

/-- What the clock shows at each indication. -/
def receivedAt (clock : Fin 4 → UInt64) : UInt64 := clock 0
def forwardedAt (clock : Fin 4 → UInt64) : UInt64 := clock 1
def deliveredAt (clock : Fin 4 → UInt64) : UInt64 := clock 2
def deletedAt (clock : Fin 4 → UInt64) : UInt64 := clock 3

def encodeStatusIndicators (e : CborEncoder) (statusFlags : ℕ) (includeTimestamp : Bool)
    (clock : Fin 4 → UInt64) : Except Failure CborEncoder :=
  e.encodeArray 4 fun a => do
    let a ← encodeIndicator a (indicated statusFlags statusReceived) includeTimestamp (receivedAt clock)
    let a ← encodeIndicator a (indicated statusFlags statusForwarded) includeTimestamp (forwardedAt clock)
    let a ← encodeIndicator a (indicated statusFlags statusDelivered) includeTimestamp (deliveredAt clock)
    encodeIndicator a (indicated statusFlags statusDeleted) includeTimestamp (deletedAt clock)

section
variable (parse : List UInt8 → Option Uri)

/-- `encode_report`, up to the number of missing bytes. The array of the report is closed as if it were
that of the administrative record, which is not closed itself. -/
def encodeReport (buflen : Option ℕ) (orig : OrigBundle) (statusFlags : ℕ) (reason : UInt64)
    (clock : Fin 4 → UInt64) : Except Failure CborEncoder := do
  let encoder := cborEncoderInit buflen
  let adminRec := (encoder.createArray 2).encodeUint adminStatusReport
  let arraySize := if orig.isFragment then 6 else 4
  let rpt := adminRec.createArray arraySize
  let rpt ← encodeStatusIndicators rpt statusFlags orig.reqTimeInStatusRpt clock
  let rpt := rpt.encodeUint reason.toNat
  let rpt ← CborUtilBP7.encodeEid parse rpt orig.source
  let rpt ← CborUtilBP7.encodeBundleTimestamp rpt orig.creationTs
  let rpt := if orig.isFragment then
    (rpt.encodeUint orig.fragOffset.toNat).encodeUint orig.fragLength.toNat else rpt
  encoder.saturatedDecrement.closeContainer rpt

/-- The bytes of the payload. Those that the second pass does not write are as they were in the buffer. -/
def encodedReport (orig : OrigBundle) (statusFlags : ℕ) (reason : UInt64)
    (clock clock' : Fin 4 → UInt64) (scratch : ℕ → UInt8) : Option (List UInt8) :=
  match encodeReport parse none orig statusFlags reason clock with
  | .error _ => none
  | .ok sized =>
    let rptLen := sized.extraBytesNeeded.toNat
    match encodeReport parse (some rptLen) orig statusFlags reason clock' with
    | .error _ => none
    | .ok e =>
      if e.extraBytesNeeded ≠ 0 then none
      else
        let written := e.output.length
        some (e.output ++ (List.range' written (rptLen - written)).map scratch)

/-- `create_status_report` for a bundle of version 7. -/
def createStatusReport (orig : OrigBundle) (source : Eid) (statusFlags : ℕ) (reason : UInt64)
    (clock clock' : Fin 4 → UInt64) (scratch : ℕ → UInt8) : ReportBundle where
  source := source
  dest := if orig.replyto = makeEidNull then orig.source else orig.replyto
  expirationMillis := orig.expirationMillis
  payload := encodedReport parse orig statusFlags reason clock clock' scratch

end

end BundleStatusReport

/-! ## The bytes -/

theorem CborUtilBP7.encodeBundleTimestamp_eq (e : CborEncoder) (ts : UInt64 × UInt64) :
    encodeBundleTimestamp e ts = .ok (e.wrote 1
      (Cbor.head 4 2 ++ (Cbor.head 0 ts.1.toNat ++ Cbor.head 0 ts.2.toNat))) := by
  apply e.encodeArray_wrote (by norm_num [CborEncoder.cborIndefiniteLength])
  intro a
  rw [CborEncoder.encodeUint_eq, CborEncoder.encodeUint_eq, CborEncoder.wrote_wrote]

theorem CborUtilBP7.encodeEid_eq (parse : List UInt8 → Option Uri) (e : CborEncoder) (eid : Eid) :
    encodeEid parse e eid =
      ((Bundling.encodeEid parse eid).map fun bytes => Except.ok (e.wrote 1 bytes)).getD
        (.error .fail) := by
  have hsmall : 2 < CborEncoder.cborIndefiniteLength := by norm_num [CborEncoder.cborIndefiniteLength]
  have hnull : encodeEidDtnNone e =
      .ok (e.wrote 1 (Cbor.head 4 2 ++ (Cbor.head 0 schemaTypeDtn ++ Cbor.head 0 0))) := by
    apply e.encodeArray_wrote hsmall
    intro a
    rw [CborEncoder.encodeUint_eq, CborEncoder.encodeUint_eq, CborEncoder.wrote_wrote]
  have hdtn : encodeEidDtn parse e eid = .ok (e.wrote 1 (Bundling.encodeEidDtn parse eid)) := by
    apply e.encodeArray_wrote hsmall
    intro a
    rw [CborEncoder.encodeUint_eq, CborEncoder.encodeTextString_eq, CborEncoder.wrote_wrote]
  have hnumbers (schemeCode : ℕ) : encodeEidNumbers parse e eid schemeCode =
      ((Bundling.encodeEidNumbers parse eid schemeCode).map fun bytes =>
        Except.ok (e.wrote 1 bytes)).getD (.error .fail) := by
    unfold encodeEidNumbers Bundling.encodeEidNumbers
    split_ifs
    · apply e.encodeArray_wrote hsmall
      intro a
      have hssp (ssp : CborEncoder) : (Except.ok ((ssp.encodeUint (eid.nodeNum parse)).encodeUint
          (eid.serviceNum parse)) : Except Failure CborEncoder) = .ok (ssp.wrote 2
            (Cbor.head 0 (eid.nodeNum parse) ++ Cbor.head 0 (eid.serviceNum parse))) := by
        rw [CborEncoder.encodeUint_eq, CborEncoder.encodeUint_eq, CborEncoder.wrote_wrote]
      rw [CborEncoder.encodeArray_wrote _ hsmall hssp, CborEncoder.encodeUint_eq,
        CborEncoder.wrote_wrote]
    · rfl
  unfold encodeEid Bundling.encodeEid
  split_ifs
  · exact hnull
  · cases eid.scheme? parse with
    | none => rfl
    | some scheme =>
      cases scheme with
      | dtn => exact hdtn
      | ipn => exact hnumbers _
      | imc => exact hnumbers _
      | wildcard => rfl

/-- No id is long. -/
theorem length_encodeEid {parse : List UInt8 → Option Uri} {eid : Eid} {bytes : List UInt8}
    (h : encodeEid parse eid = some bytes) : bytes.length ≤ 2000 := by
  have hfollows (v : ℕ) : Cbor.follows v ≤ 8 := by
    unfold Cbor.follows
    split_ifs <;> omega
  have hnumbers {schemeCode : ℕ} (h : encodeEidNumbers parse eid schemeCode = some bytes) :
      bytes.length ≤ 2000 := by
    unfold encodeEidNumbers at h
    split_ifs at h
    obtain rfl := Option.some.inj h
    have h₁ := hfollows schemeCode
    have h₂ := hfollows 2
    have h₃ := hfollows (eid.nodeNum parse)
    have h₄ := hfollows (eid.serviceNum parse)
    simp only [List.length_append, Cbor.length_head]
    omega
  unfold encodeEid at h
  split_ifs at h
  · obtain rfl := Option.some.inj h
    decide
  · cases hscheme : eid.scheme? parse with
    | none => simp [hscheme] at h
    | some scheme =>
      rw [hscheme] at h
      cases scheme with
      | ipn => exact hnumbers h
      | imc => exact hnumbers h
      | wildcard => cases h
      | dtn =>
        obtain rfl := Option.some.inj h
        have hssp : (((parse eid.key).map Uri.ssp).getD []).length ≤ maxPartLength := by
          unfold Eid.scheme? at hscheme
          cases hparse : parse eid.key with
          | none => simp
          | some u =>
            rw [hparse] at hscheme
            by_cases hfits : u.fits = true
            · unfold Uri.fits at hfits
              simp only [Bool.and_eq_true, decide_eq_true_eq] at hfits
              exact hfits.2
            · simp [Option.filter, hfits] at hscheme
        have h₁ := hfollows (((parse eid.key).map Uri.ssp).getD []).length
        have h₂ := hfollows 2
        have h₃ := hfollows schemaTypeDtn
        unfold maxPartLength at hssp
        simp only [encodeEidDtn, List.length_append, Cbor.length_head]
        omega

namespace BundleStatusReport

def indicatorBytes (indicated : ℕ) (includeTimestamp : Bool) (timestamp : UInt64) : List UInt8 :=
  if indicated = 1 ∧ includeTimestamp then
    Cbor.head 4 2 ++ (Cbor.head 0 indicated ++ Cbor.head 0 timestamp.toNat)
  else Cbor.head 4 1 ++ Cbor.head 0 indicated

def indicatorsBytes (statusFlags : ℕ) (includeTimestamp : Bool) (clock : Fin 4 → UInt64) : List UInt8 :=
  Cbor.head 4 4 ++ (
    indicatorBytes (indicated statusFlags statusReceived) includeTimestamp (receivedAt clock) ++
    (indicatorBytes (indicated statusFlags statusForwarded) includeTimestamp (forwardedAt clock) ++
      (indicatorBytes (indicated statusFlags statusDelivered) includeTimestamp (deliveredAt clock) ++
        indicatorBytes (indicated statusFlags statusDeleted) includeTimestamp (deletedAt clock))))

def timestampBytes (ts : UInt64 × UInt64) : List UInt8 :=
  Cbor.head 4 2 ++ (Cbor.head 0 ts.1.toNat ++ Cbor.head 0 ts.2.toNat)

def placeBytes (orig : OrigBundle) : List UInt8 :=
  if orig.isFragment then Cbor.head 0 orig.fragOffset.toNat ++ Cbor.head 0 orig.fragLength.toNat else []

/-- The array of the report. -/
def reportBytes (orig : OrigBundle) (source : List UInt8) (statusFlags : ℕ) (reason : UInt64)
    (clock : Fin 4 → UInt64) : List UInt8 :=
  Cbor.head 4 (if orig.isFragment then 6 else 4) ++
    (indicatorsBytes statusFlags orig.reqTimeInStatusRpt clock ++ (Cbor.head 0 reason.toNat ++
      (source ++ (timestampBytes orig.creationTs ++ placeBytes orig))))

def adminBytes (orig : OrigBundle) (source : List UInt8) (statusFlags : ℕ) (reason : UInt64)
    (clock : Fin 4 → UInt64) : List UInt8 :=
  Cbor.head 4 2 ++ (Cbor.head 0 adminStatusReport ++ reportBytes orig source statusFlags reason clock)

/-- The bytes of the time of an indication. -/
def timeLength (indicated : ℕ) (includeTimestamp : Bool) (timestamp : UInt64) : ℕ :=
  if indicated = 1 ∧ includeTimestamp then Cbor.follows timestamp.toNat + 1 else 0

def timesLength (statusFlags : ℕ) (includeTimestamp : Bool) (clock : Fin 4 → UInt64) : ℕ :=
  timeLength (indicated statusFlags statusReceived) includeTimestamp (receivedAt clock) +
    timeLength (indicated statusFlags statusForwarded) includeTimestamp (forwardedAt clock) +
    timeLength (indicated statusFlags statusDelivered) includeTimestamp (deliveredAt clock) +
    timeLength (indicated statusFlags statusDeleted) includeTimestamp (deletedAt clock)

theorem encodeIndicator_eq (e : CborEncoder) (indicated : ℕ) (includeTimestamp : Bool)
    (timestamp : UInt64) : encodeIndicator e indicated includeTimestamp timestamp =
      .ok (e.wrote 1 (indicatorBytes indicated includeTimestamp timestamp)) := by
  unfold encodeIndicator indicatorBytes
  split_ifs
  · apply e.encodeArray_wrote (by norm_num [CborEncoder.cborIndefiniteLength])
    intro a
    dsimp only
    rw [if_pos rfl, CborEncoder.encodeUint_eq, CborEncoder.encodeUint_eq, CborEncoder.wrote_wrote]
  · apply e.encodeArray_wrote (by norm_num [CborEncoder.cborIndefiniteLength])
    intro a
    dsimp only
    rw [if_neg (by omega), CborEncoder.encodeUint_eq]

theorem encodeStatusIndicators_eq (e : CborEncoder) (statusFlags : ℕ) (includeTimestamp : Bool)
    (clock : Fin 4 → UInt64) : encodeStatusIndicators e statusFlags includeTimestamp clock =
      .ok (e.wrote 1 (indicatorsBytes statusFlags includeTimestamp clock)) := by
  apply e.encodeArray_wrote (by norm_num [CborEncoder.cborIndefiniteLength])
  intro a
  simp only [encodeIndicator_eq, bind, Except.bind, CborEncoder.wrote_wrote, List.append_assoc]

section
variable {parse : List UInt8 → Option Uri} {orig : OrigBundle} {statusFlags : ℕ} {reason : UInt64}
  {clock clock' : Fin 4 → UInt64} {source : List UInt8}

theorem encodeReport_eq (buflen : Option ℕ) (hsource : encodeEid parse orig.source = some source) :
    encodeReport parse buflen orig statusFlags reason clock =
      .ok ((cborEncoderInit buflen).wrote 1 (adminBytes orig source statusFlags reason clock)) := by
  have htwo : (2 : ℕ) ≠ CborEncoder.cborIndefiniteLength := by norm_num [CborEncoder.cborIndefiniteLength]
  have hsize (n : ℕ) (hn : n ≤ 6) : n ≠ CborEncoder.cborIndefiniteLength ∧ u64 (n + 1) = n + 1 := by
    refine ⟨?_, u64_of_lt (by omega)⟩
    norm_num [CborEncoder.cborIndefiniteLength]
    omega
  unfold encodeReport
  simp only [encodeStatusIndicators_eq, CborUtilBP7.encodeEid_eq, hsource, Option.map_some,
    Option.getD_some, CborUtilBP7.encodeBundleTimestamp_eq, bind, Except.bind,
    CborEncoder.encodeUint_eq, CborEncoder.wrote_wrote, List.append_assoc]
  cases hfragment : orig.isFragment with
  | false =>
    simp only [CborEncoder.createArray, if_neg htwo, if_neg (hsize 4 (by omega)).1,
      (hsize 4 (by omega)).2, CborEncoder.closeContainer, CborEncoder.wrote, adminBytes, reportBytes,
      hfragment, placeBytes, timestampBytes, EncoderData.append_append, CborEncoder.encodeNumberNoUpdate,
      CborEncoder.appendToBuffer, CborEncoder.saturatedDecrement, Bool.false_eq_true, if_false,
      List.append_assoc, List.append_nil]
    rfl
  | true =>
    simp only [CborEncoder.createArray, if_neg htwo, if_neg (hsize 6 (by omega)).1,
      (hsize 6 (by omega)).2, CborEncoder.closeContainer, CborEncoder.wrote, adminBytes, reportBytes,
      hfragment, placeBytes, timestampBytes, EncoderData.append_append, CborEncoder.encodeNumberNoUpdate,
      CborEncoder.appendToBuffer, CborEncoder.saturatedDecrement, if_true, List.append_assoc]
    rfl

theorem encodeReport_fails (buflen : Option ℕ) (hsource : encodeEid parse orig.source = none) :
    encodeReport parse buflen orig statusFlags reason clock = .error .fail := by
  unfold encodeReport
  simp only [encodeStatusIndicators_eq, CborUtilBP7.encodeEid_eq, hsource, Option.map_none,
    Option.getD_none, bind, Except.bind]

theorem length_indicatorBytes (statusFlags flag : ℕ) (includeTimestamp : Bool) (t : UInt64) :
    (indicatorBytes (indicated statusFlags flag) includeTimestamp t).length =
      2 + timeLength (indicated statusFlags flag) includeTimestamp t := by
  have hsmall : Cbor.follows (indicated statusFlags flag) = 0 := by
    unfold indicated
    split_ifs <;> rfl
  have h₁ : Cbor.follows 1 = 0 := rfl
  have h₂ : Cbor.follows 2 = 0 := rfl
  unfold indicatorBytes timeLength
  split_ifs
  · simp only [List.length_append, Cbor.length_head, hsmall, h₂]
    omega
  · simp only [List.length_append, Cbor.length_head, hsmall, h₁]

/-- All but the times has the same length in both passes. -/
theorem length_adminBytes (orig : OrigBundle) (source : List UInt8) (statusFlags : ℕ) (reason : UInt64) :
    ∃ n ≤ source.length + 100, ∀ clock, (adminBytes orig source statusFlags reason clock).length =
      n + timesLength statusFlags orig.reqTimeInStatusRpt clock := by
  have hfollows (v : ℕ) : Cbor.follows v ≤ 8 := by
    unfold Cbor.follows
    split_ifs <;> omega
  have h₁ : Cbor.follows 1 = 0 := rfl
  have h₂ : Cbor.follows 2 = 0 := rfl
  have h₄ : Cbor.follows 4 = 0 := rfl
  have hs : Cbor.follows (if orig.isFragment then 6 else 4) = 0 := by
    split_ifs <;> rfl
  have hplace : (placeBytes orig).length ≤ 18 := by
    have ho := hfollows orig.fragOffset.toNat
    have hl := hfollows orig.fragLength.toNat
    unfold placeBytes
    split_ifs
    · simp only [List.length_append, Cbor.length_head]
      omega
    · simp
  have hreason := hfollows reason.toNat
  have hms := hfollows orig.creationTs.1.toNat
  have hseqno := hfollows orig.creationTs.2.toNat
  refine ⟨source.length + (placeBytes orig).length + Cbor.follows reason.toNat +
    Cbor.follows orig.creationTs.1.toNat + Cbor.follows orig.creationTs.2.toNat + 16, by omega, ?_⟩
  intro clock
  simp only [adminBytes, adminStatusReport, reportBytes, indicatorsBytes, timestampBytes, timesLength,
    List.length_append, Cbor.length_head, length_indicatorBytes, h₁, h₂, h₄, hs]
  omega

/-- The payload is there if the second pass needs no more bytes than the first. -/
theorem encodedReport_eq (hsource : encodeEid parse orig.source = some source) (scratch : ℕ → UInt8) :
    encodedReport parse orig statusFlags reason clock clock' scratch =
      if timesLength statusFlags orig.reqTimeInStatusRpt clock' ≤
          timesLength statusFlags orig.reqTimeInStatusRpt clock then
        some (adminBytes orig source statusFlags reason clock' ++
          (List.range' (adminBytes orig source statusFlags reason clock').length
            ((adminBytes orig source statusFlags reason clock).length -
              (adminBytes orig source statusFlags reason clock').length)).map scratch)
      else none := by
  obtain ⟨n, hn, hlength⟩ := length_adminBytes orig source statusFlags reason
  have hid := length_encodeEid hsource
  have htimes (c : Fin 4 → UInt64) : timesLength statusFlags orig.reqTimeInStatusRpt c ≤ 36 := by
    have htime (i : ℕ) (t : UInt64) : timeLength i orig.reqTimeInStatusRpt t ≤ 9 := by
      unfold timeLength Cbor.follows
      split_ifs <;> omega
    unfold timesLength
    linarith [htime (indicated statusFlags statusReceived) (receivedAt c),
      htime (indicated statusFlags statusForwarded) (forwardedAt c),
      htime (indicated statusFlags statusDelivered) (deliveredAt c),
      htime (indicated statusFlags statusDeleted) (deletedAt c)]
  have hword (c : Fin 4 → UInt64) : (adminBytes orig source statusFlags reason c).length < 2 ^ 64 := by
    have := htimes c
    rw [hlength]
    omega
  have hneed : (UInt64.ofNat (adminBytes orig source statusFlags reason clock).length).toNat =
      (adminBytes orig source statusFlags reason clock).length := UInt64.toNat_ofNat_of_lt' (hword clock)
  unfold encodedReport
  rw [encodeReport_eq none hsource]
  dsimp only
  rw [(CborEncoder.wrote_init_none ..).1, hneed, encodeReport_eq _ hsource]
  dsimp only
  rw [(CborEncoder.wrote_init_some ..).1, (CborEncoder.wrote_init_some ..).2]
  by_cases hle : timesLength statusFlags orig.reqTimeInStatusRpt clock' ≤
      timesLength statusFlags orig.reqTimeInStatusRpt clock
  · have hfits : (adminBytes orig source statusFlags reason clock').length ≤
        (adminBytes orig source statusFlags reason clock).length := by
      rw [hlength, hlength]
      omega
    rw [if_pos hle, if_pos hfits, Nat.sub_eq_zero_of_le hfits]
    simp
  · have hover : ¬ (adminBytes orig source statusFlags reason clock').length ≤
        (adminBytes orig source statusFlags reason clock).length := by
      rw [hlength, hlength]
      omega
    rw [if_neg hle, if_pos]
    intro hzero
    have hval := congrArg UInt64.toNat hzero
    have hword' := hword clock'
    rw [UInt64.toNat_ofNat_of_lt' (show _ < UInt64.size from lt_of_le_of_lt (Nat.sub_le _ _) hword')] at hval
    have hzero' : (0 : UInt64).toNat = 0 := rfl
    omega

theorem encodedReport_none (hsource : encodeEid parse orig.source = none) (scratch : ℕ → UInt8) :
    encodedReport parse orig statusFlags reason clock clock' scratch = none := by
  unfold encodedReport
  rw [encodeReport_fails none hsource]

end

end BundleStatusReport

end Dtnme.Bundling
