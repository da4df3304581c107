import Dtnme.Bundling.StatusReportParse

/-! # The round trip of a status report

A report is read back as it was meant if it is stored at all and if its source is an id that its
numbers or its text make. It is not stored if the times of the second pass need more bytes than those of
the first.
-/

namespace Dtnme.Bundling
open Library Naming TinyCbor Decoder

/-! ## Endpoint ids that are read back -/

/-- The id is the one that is made from its encoding. -/
def CanonicalEid (parse : List UInt8 → Option Uri) (eid : Eid) : Prop :=
  if eid.isNull parse then eid = makeEidNull
  else
    match eid.scheme? parse with
    | some .ipn => eid.valid parse ∧ eid = makeEidIpn (eid.nodeNum parse) (eid.serviceNum parse)
    | some .imc => eid.valid parse ∧ eid = makeEidImc (eid.nodeNum parse) (eid.serviceNum parse)
    | some .dtn => eid = makeEidDtn (((parse eid.key).map Uri.ssp).getD [])
    | _ => False

section
variable {parse : List UInt8 → Option Uri} {eid : Eid}

theorem encodeEidNumbers_item {schemeCode : ℕ} {makeEid : ℕ → ℕ → Eid} {bytes : List UInt8}
    (hscheme : NumbersScheme schemeCode makeEid)
    (h : encodeEidNumbers parse eid schemeCode = some bytes) :
    eid.valid parse ∧ EidItem (makeEid (eid.nodeNum parse) (eid.serviceNum parse)) bytes := by
  unfold encodeEidNumbers at h
  split_ifs at h with hvalid
  obtain rfl := Option.some.inj h
  have hcode : schemeCode < 2 ^ 64 := by
    cases hscheme <;> norm_num [schemaTypeIpn, schemaTypeImc]
  have htwo : Cbor.IsHead 4 2 (Cbor.head 4 2) := .of_head (by norm_num) (by norm_num)
  exact ⟨hvalid, .numbers hscheme htwo (.of_head (by norm_num) hcode) htwo
    (.of_head (by norm_num) (Eid.nodeNum_lt eid)) (.of_head (by norm_num) (Eid.serviceNum_lt eid))⟩

/-- What is encoded is an id, and it is the same one if that is canonical. -/
theorem encodeEid_item {bytes : List UInt8} (h : encodeEid parse eid = some bytes) :
    ∃ eid', EidItem eid' bytes ∧ (eid' = eid ↔ CanonicalEid parse eid) := by
  have hlength := length_encodeEid h
  have htwo : Cbor.IsHead 4 2 (Cbor.head 4 2) := .of_head (by norm_num) (by norm_num)
  have hone : Cbor.IsHead 0 schemaTypeDtn (Cbor.head 0 schemaTypeDtn) := by decide
  unfold encodeEid at h
  unfold CanonicalEid
  split_ifs at h with hnull
  · obtain rfl := Option.some.inj h
    refine ⟨makeEidNull, .null htwo hone (by decide), ?_⟩
    rw [if_pos hnull, eq_comm]
  · rw [if_neg hnull]
    cases hscheme : eid.scheme? parse with
    | none => simp [hscheme] at h
    | some scheme =>
      rw [hscheme] at h
      cases scheme with
      | wildcard => cases h
      | ipn =>
        obtain ⟨hvalid, hitem⟩ := encodeEidNumbers_item .ipn h
        exact ⟨_, hitem, by simp only [hvalid, true_and, eq_comm]⟩
      | imc =>
        obtain ⟨hvalid, hitem⟩ := encodeEidNumbers_item .imc h
        exact ⟨_, hitem, by simp only [hvalid, true_and, eq_comm]⟩
      | dtn =>
        obtain rfl := Option.some.inj h
        refine ⟨makeEidDtn (((parse eid.key).map Uri.ssp).getD []), .dtn htwo hone (.whole ?_), eq_comm⟩
        apply Cbor.IsHead.of_head (by norm_num)
        simp only [encodeEidDtn, List.length_append] at hlength
        omega

theorem not_canonicalEid (h : encodeEid parse eid = none) : ¬ CanonicalEid parse eid := by
  unfold encodeEid at h
  unfold CanonicalEid
  split_ifs at h with hnull
  rw [if_neg hnull]
  have hvalid {schemeCode : ℕ} (h : encodeEidNumbers parse eid schemeCode = none) :
      ¬ eid.valid parse = true := by
    unfold encodeEidNumbers at h
    split_ifs at h with hv
    exact hv
  cases hscheme : eid.scheme? parse with
  | none => exact id
  | some scheme =>
    rw [hscheme] at h
    cases scheme with
    | wildcard => exact id
    | ipn => exact fun hc => hvalid h hc.1
    | imc => exact fun hc => hvalid h hc.1
    | dtn => cases h

end

/-! ## The grammar of what is encoded -/

namespace BundleStatusReport

/-- The time of an indication, or none. -/
def timeOf (indicated : ℕ) (includeTimestamp : Bool) (timestamp : UInt64) : ℕ :=
  if indicated = 1 ∧ includeTimestamp then timestamp.toNat else 0

/-- What the report is meant to say, with the times of the pass that writes it. -/
def meant (orig : OrigBundle) (source : Eid) (statusFlags : ℕ) (reason : UInt64)
    (clock : Fin 4 → UInt64) : ReportData where
  received := statusFlags &&& statusReceived ≠ 0
  receivedTimestamp :=
    timeOf (indicated statusFlags statusReceived) orig.reqTimeInStatusRpt (receivedAt clock)
  forwarded := statusFlags &&& statusForwarded ≠ 0
  forwardedTimestamp :=
    timeOf (indicated statusFlags statusForwarded) orig.reqTimeInStatusRpt (forwardedAt clock)
  delivered := statusFlags &&& statusDelivered ≠ 0
  deliveredTimestamp :=
    timeOf (indicated statusFlags statusDelivered) orig.reqTimeInStatusRpt (deliveredAt clock)
  deleted := statusFlags &&& statusDeleted ≠ 0
  deletedTimestamp :=
    timeOf (indicated statusFlags statusDeleted) orig.reqTimeInStatusRpt (deletedAt clock)
  reasonCode := reason.toNat
  origSourceEid := some source
  origCreationTs := (orig.creationTs.1.toNat, orig.creationTs.2.toNat)
  origFragOffset := if orig.isFragment then orig.fragOffset.toNat else 0
  origFragLength := if orig.isFragment then orig.fragLength.toNat else 0

theorem isHead_uint64 (v : UInt64) : Cbor.IsHead 0 v.toNat (Cbor.head 0 v.toNat) :=
  .of_head (by norm_num) v.toNat_lt

theorem isHead_indicated (statusFlags flag : ℕ) :
    Cbor.IsHead 0 (indicated statusFlags flag) (Cbor.head 0 (indicated statusFlags flag)) := by
  unfold indicated
  split_ifs <;> decide

theorem indicated_eq_one (statusFlags flag : ℕ) :
    (indicated statusFlags flag = 1) = (statusFlags &&& flag ≠ 0) := by
  unfold indicated
  split_ifs with h <;> simp [h]

theorem indicatorBytes_item (statusFlags flag : ℕ) (includeTimestamp : Bool) (t : UInt64) :
    ArrayOf 1 2 IndicatorElements (indicated statusFlags flag,
      timeOf (indicated statusFlags flag) includeTimestamp t)
      (indicatorBytes (indicated statusFlags flag) includeTimestamp t) := by
  unfold timeOf indicatorBytes
  split_ifs
  · exact ⟨2, _, _, by norm_num, le_rfl, by decide, .timed (isHead_indicated ..) (isHead_uint64 t), rfl⟩
  · exact ⟨1, _, _, le_rfl, by norm_num, by decide, .plain (isHead_indicated ..), rfl⟩

/-- The indications of a report, with their times. -/
def indications (orig : OrigBundle) (statusFlags : ℕ) (clock : Fin 4 → UInt64) : List (ℕ × ℕ) :=
  [(indicated statusFlags statusReceived,
      timeOf (indicated statusFlags statusReceived) orig.reqTimeInStatusRpt (receivedAt clock)),
    (indicated statusFlags statusForwarded,
      timeOf (indicated statusFlags statusForwarded) orig.reqTimeInStatusRpt (forwardedAt clock)),
    (indicated statusFlags statusDelivered,
      timeOf (indicated statusFlags statusDelivered) orig.reqTimeInStatusRpt (deliveredAt clock)),
    (indicated statusFlags statusDeleted,
      timeOf (indicated statusFlags statusDeleted) orig.reqTimeInStatusRpt (deletedAt clock))]

theorem indicatorsBytes_item (orig : OrigBundle) (statusFlags : ℕ) (clock : Fin 4 → UInt64) :
    IndicationArray (indications orig statusFlags clock)
      (indicatorsBytes statusFlags orig.reqTimeInStatusRpt clock) := by
  refine ⟨4, _, _, le_rfl, by norm_num, by decide, ⟨rfl, ?_⟩, rfl⟩
  have hlast := Indicators.cons
    (indicatorBytes_item statusFlags statusDeleted orig.reqTimeInStatusRpt (deletedAt clock)) .nil
  rw [List.append_nil] at hlast
  exact .cons (indicatorBytes_item ..) (.cons (indicatorBytes_item ..)
    (.cons (indicatorBytes_item ..) hlast))

theorem meant_eq (orig : OrigBundle) (source : Eid) (statusFlags : ℕ) (reason : UInt64)
    (clock : Fin 4 → UInt64) :
    meant orig source statusFlags reason clock = dataOf (indications orig statusFlags clock)
      reason.toNat source (orig.creationTs.1.toNat, orig.creationTs.2.toNat)
      (if orig.isFragment then (orig.fragOffset.toNat, orig.fragLength.toNat) else (0, 0)) := by
  unfold meant dataOf indications
  simp only [List.getD_cons_zero, List.getD_cons_succ, indicated_eq_one]
  split_ifs <;> rfl

theorem reportBytes_item {orig : OrigBundle} {source : Eid} {bytes : List UInt8}
    (hsource : EidItem source bytes) (statusFlags : ℕ) (reason : UInt64) (clock : Fin 4 → UInt64) :
    ReportItem (meant orig source statusFlags reason clock)
      (reportBytes orig bytes statusFlags reason clock) := by
  have hindications := indicatorsBytes_item orig statusFlags clock
  have htimestamp : TimestampItem (orig.creationTs.1.toNat, orig.creationTs.2.toNat)
      (timestampBytes orig.creationTs) :=
    ⟨2, _, _, le_rfl, le_rfl, by decide, .mk (isHead_uint64 _) (isHead_uint64 _), rfl⟩
  rw [meant_eq]
  unfold reportBytes placeBytes
  cases orig.isFragment with
  | false => exact .mk (by decide) hindications (isHead_uint64 reason) hsource htimestamp .whole
  | true =>
    exact .mk (by decide) hindications (isHead_uint64 reason) hsource htimestamp
      (.fragment (isHead_uint64 _) (isHead_uint64 _))

/-! ## Delivery -/

/-- A cursor at the only item of a buffer, whatever follows it. -/
theorem ahead_start {item : List UInt8} (hitem : Cbor.Items 1 item) (rest : List UInt8) :
    ∃ it, cborParserInit (ω := Empty) (item ++ rest) = ([], .done it) ∧
      Upcoming (item ++ rest) 0 rest 0 1 item [] it := by
  have hbuf : (item ++ rest).drop 0 = item ++ rest := rfl
  obtain ⟨it, hinit, hstands⟩ :=
    preparseValue_stands (ω := Empty) (r := 0) hitem (by norm_num [uint32Max]) hbuf
  exact ⟨it, hinit, by simpa using hstands, hitem, .nil⟩

/-- An administrative record with a report is read up to the report. -/
theorem deliverStatusReport_reads {report : List UInt8} {sr : ReportData} (h : ReportItem sr report)
    (rest : List UInt8) :
    deliverStatusReport (ω := Empty)
      (Cbor.head 4 2 ++ (Cbor.head 0 adminStatusReport ++ report) ++ rest) = ([], .done sr) := by
  have hitems : Cbor.Items 1 report := reportItem_items h
  have htwo : Cbor.IsHead 4 2 (Cbor.head 4 2) := by decide
  have htype : Cbor.IsHead 0 adminStatusReport (Cbor.head 0 adminStatusReport) := by decide
  have hbody : Cbor.Items 2 (Cbor.head 0 adminStatusReport ++ report) := (items_uint htype).append hitems
  obtain ⟨it, hinit, hat⟩ := ahead_start (items_pair htwo (items_uint htype) hitems) rest
  obtain ⟨hvalid, ⟨inner, henter, hinner⟩, -⟩ :=
    hat.enter (ω := Empty) htwo hbody (show 2 ≤ 2 from le_rfl) (show 2 ≤ 2 from le_rfl)
      (by norm_num [uint32Max])
  obtain ⟨next, hnext, hstands⟩ :=
    (decides_uint (ω := Empty)).reads (hinner.first (items_uint htype) hitems) htype
  have hreport : Upcoming (Cbor.head 4 2 ++ (Cbor.head 0 adminStatusReport ++ report) ++ rest) _ _ 0 1
      report [] next := ⟨hstands, hitems, .nil⟩
  unfold deliverStatusReport
  rw [bind_of_done hinit, bind_of_done hvalid, bind_of_done henter, bind_of_done hnext]
  dsimp only
  rw [if_pos rfl]
  exact parseStatusReport_reads hreport h

/-! ## The round trip -/

/-- The payload is stored, and what is read of it is what was meant, whatever was in the buffer. -/
def RoundTrips (parse : List UInt8 → Option Uri) (orig : OrigBundle) (statusFlags : ℕ) (reason : UInt64)
    (clock clock' : Fin 4 → UInt64) : Prop :=
  ∀ source scratch, ∃ payload,
    (createStatusReport parse orig source statusFlags reason clock clock' scratch).payload =
      some payload ∧
    (deliverStatusReport (ω := Empty) payload).2 = .done (meant orig orig.source statusFlags reason clock')

/-- The reader fails, or returns what the item denotes. -/
def ParsesSafely (item : List UInt8) : Prop :=
  ∀ buf p rest r others it, Upcoming buf p rest r 1 item others it →
    ((parseStatusReport (ω := Empty) it buf).2 = .stop .fail ∨
      (parseStatusReport (ω := Empty) it buf).2 = .more) ∨
    ∃ sr, (parseStatusReport (ω := Empty) it buf).2 = .done sr ∧ ReportItem sr item

section
variable {parse : List UInt8 → Option Uri} {orig : OrigBundle} {statusFlags : ℕ} {reason : UInt64}
  {clock clock' : Fin 4 → UInt64}

theorem roundTrips_iff : RoundTrips parse orig statusFlags reason clock clock' ↔
    CanonicalEid parse orig.source ∧ timesLength statusFlags orig.reqTimeInStatusRpt clock' ≤
      timesLength statusFlags orig.reqTimeInStatusRpt clock := by
  cases hsource : encodeEid parse orig.source with
  | none =>
    have hnone (source : Eid) (scratch : ℕ → UInt8) :
        (createStatusReport parse orig source statusFlags reason clock clock' scratch).payload = none :=
      encodedReport_none hsource scratch
    constructor
    · intro h
      obtain ⟨payload, hpayload, -⟩ := h makeEidNull fun _ => 0
      rw [hnone] at hpayload
      cases hpayload
    · exact fun h => absurd h.1 (not_canonicalEid hsource)
  | some bytes =>
    obtain ⟨eid, hitem, hcanonical⟩ := encodeEid_item hsource
    have hread (rest : List UInt8) :
        (deliverStatusReport (ω := Empty) (adminBytes orig bytes statusFlags reason clock' ++ rest)).2 =
          .done (meant orig eid statusFlags reason clock') := by
      unfold adminBytes
      rw [deliverStatusReport_reads (reportBytes_item hitem statusFlags reason clock') rest]
    have hstored (source : Eid) (scratch : ℕ → UInt8) :
        (createStatusReport parse orig source statusFlags reason clock clock' scratch).payload = _ :=
      encodedReport_eq hsource scratch
    constructor
    · intro h
      obtain ⟨payload, hpayload, hdone⟩ := h makeEidNull fun _ => 0
      rw [hstored] at hpayload
      split_ifs at hpayload with hle
      obtain rfl := Option.some.inj hpayload
      rw [hread] at hdone
      have hmeant := congrArg ReportData.origSourceEid (Ending.done.inj hdone)
      exact ⟨hcanonical.mp (Option.some.inj hmeant), hle⟩
    · rintro ⟨hid, hle⟩ source scratch
      rw [hstored, if_pos hle]
      obtain rfl := hcanonical.mpr hid
      exact ⟨_, rfl, hread _⟩

theorem parsesSafely_iff {item : List UInt8} (hitem : Cbor.Items 1 item) :
    ParsesSafely item ↔ ¬ StuckReport item := by
  constructor
  · intro h hstuck
    obtain ⟨it, -, hat⟩ := ahead_start hitem []
    have habort := parseStatusReport_aborts (ω := Empty) hat hstuck
    have hsafe := h _ _ _ _ _ _ hat
    rw [habort] at hsafe
    rcases hsafe with (hfail | hmore) | ⟨sr, hdone, -⟩
    · cases hfail
    · cases hmore
    · cases hdone
  · intro hstuck buf p rest r others it hat
    by_cases hreport : ∃ sr, ReportItem sr item
    · obtain ⟨sr, hsr⟩ := hreport
      exact .inr ⟨sr, by rw [parseStatusReport_reads hat hsr], hsr⟩
    · have hfail := parseStatusReport_refuses (ω := Empty) hat (fun sr hsr => hreport ⟨sr, hsr⟩) hstuck
      exact .inl (.inl (by rw [hfail]))

/-- Every report makes the round trip if and only if its source is canonical and the times of the second
pass need no more bytes than those of the first, and every item is read safely but for a source that the
reader cannot leave. -/
theorem status_reports_iff (parse : List UInt8 → Option Uri) :
    (∀ orig statusFlags reason clock clock', RoundTrips parse orig statusFlags reason clock clock' ↔
      CanonicalEid parse orig.source ∧ timesLength statusFlags orig.reqTimeInStatusRpt clock' ≤
        timesLength statusFlags orig.reqTimeInStatusRpt clock) ∧
    ∀ item, Cbor.Items 1 item → (ParsesSafely item ↔ ¬ StuckReport item) :=
  ⟨fun _ _ _ _ _ => roundTrips_iff, fun _ hitem => parsesSafely_iff hitem⟩

end

section Example

theorem canonicalEid_makeEidIpn_one : CanonicalEid splitUri (makeEidIpn 1 1) := by
  have hnull : (makeEidIpn 1 1).isNull splitUri = false := by decide +kernel
  have hscheme : (makeEidIpn 1 1).scheme? splitUri = some .ipn := by decide +kernel
  unfold CanonicalEid
  rw [if_neg (by simp [hnull]), hscheme]
  exact ⟨by decide +kernel, by decide +kernel⟩

/-- A report of a reception, with its time. -/
theorem status_reports_iff_received : RoundTrips splitUri
    { source := makeEidIpn 1 1, reqTimeInStatusRpt := true } statusReceived 0 (fun _ => 5) (fun _ => 6) :=
  ((status_reports_iff splitUri).1 _ _ _ _ _).mpr ⟨canonicalEid_makeEidIpn_one, by decide⟩

/-- The clock goes on between the passes, from 23 to 24 milliseconds. -/
theorem report_not_stored : ¬ ∀ parse : List UInt8 → Option Uri, IsUri parse →
    (∀ orig statusFlags reason clock clock', orig.source.valid parse →
      RoundTrips parse orig statusFlags reason clock clock') ∧
    ∀ item, Cbor.Items 1 item → ParsesSafely item := by
  intro h
  have hid : (makeEidIpn 1 1).valid splitUri = true := by decide +kernel
  have htrip := (h splitUri isUri_splitUri).1 { source := makeEidIpn 1 1, reqTimeInStatusRpt := true }
    statusReceived 0 (fun _ => 23) (fun _ => 24) hid
  have hle := (roundTrips_iff.mp htrip).2
  revert hle
  decide

end Example

end BundleStatusReport

end Dtnme.Bundling
