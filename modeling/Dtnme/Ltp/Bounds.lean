import Dtnme.Ltp.RoundTrip

/-! # Bounds of the decoder

When the decoder stays inside its buffer. An event is safe if it stays within the given
length and agrees with what the packet declares. A packet is framed if its extension
count, tags, cipher suite and reason code lie inside, every extension has the length by
which the parser moves on, and its counts and lengths survive the casts to `int`.
-/

namespace Dtnme.Ltp
open Library Bundling

variable {mem : ℕ → UInt8} {length c : ℕ}

/-! ## Safe events -/

/-- Reads and payloads inside the buffer, numbers decoded with the true number of remaining bytes,
as many claims and as long an extension as declared. -/
def Safe (length : ℕ) : Event → Prop
  | .read i => i < length
  | .sdnv start len => start + len = length
  | .payload start len => start + len ≤ length
  | .claims declared decoded => decoded = declared
  | .extension declared skipped => skipped = declared

instance (length : ℕ) : DecidablePred (Safe length)
  | .read i => inferInstanceAs (Decidable (i < length))
  | .sdnv start len => inferInstanceAs (Decidable (start + len = length))
  | .payload start len => inferInstanceAs (Decidable (start + len ≤ length))
  | .claims declared decoded => inferInstanceAs (Decidable (decoded = declared))
  | .extension declared skipped => inferInstanceAs (Decidable (skipped = declared))

@[simp] theorem all_peek {i : ℕ} : (peek mem i).All (Safe length) ↔ i < length := by
  simp [peek, Logged.all_bind, Safe]

theorem all_decodeLoop {len bp count val : ℕ} (h : bp + len ≤ length) :
    (decodeLoop mem len bp count val).All (Safe length) := by
  induction len generalizing bp count val with
  | zero => exact Logged.all_fail
  | succ len ih =>
    rw [decodeLoop, Logged.all_bind, all_peek]
    refine ⟨by omega, fun byte _ => ?_⟩
    simp only
    split_ifs
    · exact Logged.all_pure _
    · exact ih (by omega)

/-- A number is decoded safely exactly at an address that is not past the end. -/
theorem all_decode (hlen : length < 2 ^ 64) :
    (decode mem c (u64Sub length c)).All (Safe length) ↔ c ≤ length := by
  rw [decode, Logged.all_bind, Logged.all_note]
  constructor
  · rintro ⟨hsafe, -⟩
    exact le_of_le_of_eq (Nat.le_add_right _ _) hsafe
  · intro hle
    rw [u64Sub_of_le hlen hle]
    refine ⟨Nat.add_sub_cancel' hle, fun _ _ => ?_⟩
    rw [Logged.all_bind]
    refine ⟨all_decodeLoop (Nat.add_sub_cancel' hle).le, fun r _ => ?_⟩
    simp only
    split_ifs
    · exact Logged.all_fail
    · exact Logged.all_pure _

theorem all_decodeField (hlen : length < 2 ^ 64) :
    (decodeField mem length c).All (Safe length) ↔ c ≤ length := by
  rw [decodeField, Logged.all_bind, all_decode hlen]
  exact and_iff_left fun _ _ => Logged.all_pure _

theorem all_decodeField32 (hlen : length < 2 ^ 64) :
    (decodeField32 mem length c).All (Safe length) ↔ c ≤ length := by
  rw [decodeField32, decode32, Logged.all_bind, Logged.all_bind, all_decode hlen, and_assoc]
  refine and_iff_left ⟨fun _ _ => ?_, fun _ _ => Logged.all_pure _⟩
  simp only
  split_ifs
  · exact Logged.all_fail
  · exact Logged.all_pure _

/-! ## Framed packets -/

/-- The number at an address inside the buffer, with the address behind it. -/
def sdnvAt (mem : ℕ → UInt8) (length c : ℕ) : Option (ℕ × ℕ) :=
  (decode mem c (length - c)).result.map (fun r => (r.1, c + r.2))

/-- The same for a number that has to fit 32 bits. -/
def sdnv32At (mem : ℕ → UInt8) (length c : ℕ) : Option (ℕ × ℕ) :=
  (sdnvAt mem length c).filter (fun r => decide (r.1 < 2 ^ 32))

/-- The header extensions. Tag and cipher suite lie inside; the first authentication extension
holds its suite and key id and nothing else, every other one has the length of that one, or no
bytes before it. -/
def ExtensionsFramed (mem : ℕ → UInt8) (length : ℕ) (body : ℕ → Prop) : ℕ → ExtState → Prop
  | 0, st => body st.currentByte
  | n + 1, st => st.currentByte < length ∧
      ∀ declared c, sdnv32At mem length (st.currentByte + 1) = some (declared, c) →
        if mem st.currentByte = 0 ∧ st.headerFound = false then
          c < length ∧
            if declared = 1 then ExtensionsFramed mem length body n ⟨c + 1, declared, true⟩
            else ∀ key next, sdnv32At mem length (c + 1) = some (key, next) →
              next = c + declared ∧ ExtensionsFramed mem length body n ⟨next, declared, true⟩
        else
          declared = st.segLen ∧
            ExtensionsFramed mem length body n { st with currentByte := c + declared }

/-- A declared payload that passes the comparison of `int` values lies inside. -/
def PayloadFramed (length c payloadLength : ℕ) : Prop :=
  payloadLength ≠ 0 → i32 (c + payloadLength) ≤ i32 length → c + payloadLength ≤ length

def DataFramed (mem : ℕ → UInt8) (length : ℕ) (redCheckpoint : Bool) (c : ℕ) : Prop :=
  c ≤ length ∧
    ∀ service c₁, sdnv32At mem length c = some (service, c₁) →
    ∀ offset c₂, sdnvAt mem length c₁ = some (offset, c₂) →
    ∀ payloadLength c₃, sdnvAt mem length c₂ = some (payloadLength, c₃) →
      if redCheckpoint then
        ∀ checkpoint c₄, sdnvAt mem length c₃ = some (checkpoint, c₄) →
        ∀ serial c₅, sdnvAt mem length c₄ = some (serial, c₅) →
          PayloadFramed length c₅ payloadLength
      else PayloadFramed length c₃ payloadLength

/-- That many pairs of numbers follow. -/
def ClaimsFollow (mem : ℕ → UInt8) (length : ℕ) : ℕ → ℕ → Prop
  | 0, _ => True
  | n + 1, c => ∃ offset c₁ len c₂, sdnvAt mem length c = some (offset, c₁) ∧
      sdnvAt mem length c₁ = some (len, c₂) ∧ ClaimsFollow mem length n c₂

/-- A claim count beyond the `int` range is not followed by as many claims as its cast says. -/
def ReportFramed (mem : ℕ → UInt8) (length c : ℕ) : Prop :=
  c ≤ length →
    ∀ serial c₁, sdnvAt mem length c = some (serial, c₁) →
    ∀ checkpoint c₂, sdnvAt mem length c₁ = some (checkpoint, c₂) →
    ∀ upper c₃, sdnvAt mem length c₂ = some (upper, c₃) →
    ∀ lower c₄, sdnvAt mem length c₃ = some (lower, c₄) →
    ∀ count c₅, sdnvAt mem length c₄ = some (count, c₅) →
      count < 2 ^ 31 ∨ ¬ ClaimsFollow mem length (i32 count).toNat c₅

/-- What has to hold behind the header, by the control byte. -/
def BodyFramed (mem : ℕ → UInt8) (length controlFlags c : ℕ) : Prop :=
  if controlFlags < 8 then DataFramed mem length (decide (controlFlags ∈ [1, 2, 3])) c
  else if controlFlags = 0x08 then ReportFramed mem length c
  else if controlFlags = 0x0C ∨ controlFlags = 0x0E then c ≠ length
  else True

/-- A packet that the decoder goes through safely: one of a type that it does not parse, or one
whose length survives the cast and whose parts are framed as far as it can be read. -/
def Framed (mem : ℕ → UInt8) (length : ℕ) : Prop :=
  (mem 0).toNat % 16 ∈ [0x0A, 0x0B] ∨
    (u64OfInt (i32 length) = length ∧
      ∀ engine c₁, sdnvAt mem length 1 = some (engine, c₁) →
      ∀ session c₂, sdnvAt mem length c₁ = some (session, c₂) →
        c₂ < length ∧ ExtensionsFramed mem length (BodyFramed mem length ((mem 0).toNat % 16))
          ((mem c₂).toNat / 16) { currentByte := c₂ + 1 })

/-! ## Results on a true length -/

theorem decodeField_result (hlen : length < 2 ^ 64) (hc : c ≤ length) :
    (decodeField mem length c).result = sdnvAt mem length c := by
  rw [decodeField, u64Sub_of_le hlen hc, Logged.result_bind, sdnvAt]
  cases (decode mem c (length - c)).result with
  | none => rfl
  | some r => rfl

theorem decodeField32_result (hlen : length < 2 ^ 64) (hc : c ≤ length) :
    (decodeField32 mem length c).result = sdnv32At mem length c := by
  rw [decodeField32, decode32, u64Sub_of_le hlen hc, Logged.result_bind, Logged.result_bind,
    sdnv32At, sdnvAt]
  cases (decode mem c (length - c)).result with
  | none => rfl
  | some r =>
    obtain ⟨v, n⟩ := r
    simp only [Option.bind_some, Option.map_some, Option.filter_some]
    by_cases hv : v < 2 ^ 32
    · rw [if_neg (by omega), if_pos (by simpa using hv)]
      rfl
    · rw [if_pos (by omega), if_neg (by simpa using hv)]
      rfl

theorem sdnvAt_le {v c' : ℕ} (hc : c ≤ length) (h : sdnvAt mem length c = some (v, c')) :
    c' ≤ length := by
  obtain ⟨⟨v', n⟩, hd, hr⟩ := Option.map_eq_some_iff.mp h
  obtain ⟨hn, -⟩ := decode_bound hd
  simp only [Prod.mk.injEq] at hr
  omega

theorem sdnvAt_gt {v c' : ℕ} (h : sdnvAt mem length c = some (v, c')) : c < c' := by
  obtain ⟨⟨v', n⟩, hd, hr⟩ := Option.map_eq_some_iff.mp h
  have hpos := (encodingLen_pos v').trans (decode_bound hd).2.2
  simp only [Prod.mk.injEq] at hr
  omega

theorem sdnv32At_gt {v c' : ℕ} (h : sdnv32At mem length c = some (v, c')) : c < c' :=
  sdnvAt_gt (Option.filter_eq_some_iff.mp h).1

theorem sdnv32At_le {v c' : ℕ} (hc : c ≤ length) (h : sdnv32At mem length c = some (v, c')) :
    c' ≤ length :=
  sdnvAt_le hc (Option.filter_eq_some_iff.mp h).1

/-! ## Rules for the parsers -/

theorem wp_peek {i : ℕ} {q : UInt8 → Prop} :
    (peek mem i).Wp (Safe length) q ↔ i < length ∧ q (mem i) := by
  rw [Logged.Wp, all_peek, result_peek]
  simp

theorem wp_decodeField {q : ℕ × ℕ → Prop} (hlen : length < 2 ^ 64) :
    (decodeField mem length c).Wp (Safe length) q ↔
      c ≤ length ∧ ∀ v c', sdnvAt mem length c = some (v, c') → q (v, c') := by
  rw [Logged.Wp, all_decodeField hlen]
  refine and_congr_right fun hc => ?_
  rw [decodeField_result hlen hc, Prod.forall]

theorem wp_decodeField32 {q : ℕ × ℕ → Prop} (hlen : length < 2 ^ 64) :
    (decodeField32 mem length c).Wp (Safe length) q ↔
      c ≤ length ∧ ∀ v c', sdnv32At mem length c = some (v, c') → q (v, c') := by
  rw [Logged.Wp, all_decodeField32 hlen]
  refine and_congr_right fun hc => ?_
  rw [decodeField32_result hlen hc, Prod.forall]

theorem wp_parseCipherKey {segLen : ℕ} {q : ℕ → Prop} (hlen : length < 2 ^ 64) (hc : c ≤ length) :
    (parseCipherKey mem length segLen c).Wp (Safe length) q ↔
      if segLen = 1 then q c else ∀ key next, sdnv32At mem length c = some (key, next) → q next := by
  unfold parseCipherKey
  split_ifs
  · exact Logged.wp_pure c
  · rw [Logged.wp_bind, wp_decodeField32 hlen, and_iff_right hc]
    simp only [Logged.wp_pure]

theorem wp_parseExtensions {body : ℕ → Prop} (hlen : length < 2 ^ 64) (n : ℕ) (st : ExtState) :
    (parseExtensions mem length n st).Wp (Safe length) (fun st => body st.currentByte) ↔
      ExtensionsFramed mem length body n st := by
  induction n generalizing st with
  | zero => exact Logged.wp_pure st
  | succ n ih =>
    rw [parseExtensions, Logged.wp_bind, parseExtension, Logged.wp_bind, wp_peek, ExtensionsFramed]
    refine and_congr_right fun htag => ?_
    rw [Logged.wp_bind, wp_decodeField32 hlen, and_iff_right (by omega)]
    refine forall_congr' fun declared => forall_congr' fun c => imp_congr_right fun hd => ?_
    have hc := sdnv32At_le (by omega) hd
    by_cases hfirst : mem st.currentByte = 0 ∧ st.headerFound = false
    · simp only [hfirst, and_self, if_true, ih]
      rw [Logged.wp_bind, wp_peek]
      refine and_congr_right fun hsuite => ?_
      rw [Logged.wp_bind, wp_parseCipherKey hlen (show c + 1 ≤ length from hsuite)]
      simp only [Logged.wp_bind, Logged.wp_note, Logged.wp_pure, Safe]
      split_ifs with hone
      · rw [hone, Nat.add_sub_cancel_left, and_iff_right rfl]
      · refine forall_congr' fun key => forall_congr' fun next => imp_congr_right fun hkey => ?_
        have hpast := sdnv32At_gt hkey
        refine and_congr_left fun _ => ?_
        omega
    · simp only [hfirst, if_false, ih]
      rw [Logged.wp_bind, Logged.wp_note, Logged.wp_pure, Safe]
      constructor
      · rintro ⟨hsame, hrest⟩
        exact ⟨hsame.symm, hsame ▸ hrest⟩
      · rintro ⟨hsame, hrest⟩
        exact ⟨hsame.symm, hsame ▸ hrest⟩

/-- The header as its own precondition: the ids, the extension count and the extensions. -/
theorem wp_parseBuffer {q : Header → Prop} {body : ℕ → Prop} (hlen : length < 2 ^ 64)
    (hpos : 1 ≤ length)
    (hbody : ∀ engineId sessionId c, q ⟨flagsOf ((mem 0).toNat % 16) { engineId, sessionId }, c,
      decide (c ≤ length)⟩ ↔ body c) :
    (parseBuffer mem length).Wp (Safe length) q ↔
      ∀ engine c₁, sdnvAt mem length 1 = some (engine, c₁) →
      ∀ session c₂, sdnvAt mem length c₁ = some (session, c₂) →
        c₂ < length ∧ ExtensionsFramed mem length body ((mem c₂).toNat / 16)
          { currentByte := c₂ + 1 } := by
  rw [parseBuffer, Logged.wp_bind, wp_peek, and_iff_right (by omega), Logged.wp_bind,
    wp_decodeField hlen, and_iff_right hpos]
  refine forall_congr' fun engine => forall_congr' fun c₁ => imp_congr_right fun h₁ => ?_
  have hc₁ := sdnvAt_le hpos h₁
  rw [Logged.wp_bind, wp_decodeField hlen, and_iff_right hc₁]
  refine forall_congr' fun session => forall_congr' fun c₂ => imp_congr_right fun h₂ => ?_
  rw [Logged.wp_bind, wp_peek]
  refine and_congr_right fun _ => ?_
  rw [Logged.wp_bind, ← wp_parseExtensions hlen]
  simp only [Logged.wp_pure, hbody]

theorem wp_parseCheckpoint {seg : LTPSegment} {q : ℕ × ℕ × ℕ → Prop} {f : ℕ → Prop}
    (hlen : length < 2 ^ 64) (hc : c ≤ length)
    (hbody : ∀ checkpointId serialNumber c, q (checkpointId, serialNumber, c) ↔ f c) :
    (parseCheckpoint mem length seg c).Wp (Safe length) q ↔
      if seg.redGreen = .red ∧ seg.isCheckpoint then
        ∀ checkpoint c₄, sdnvAt mem length c = some (checkpoint, c₄) →
        ∀ serial c₅, sdnvAt mem length c₄ = some (serial, c₅) → f c₅
      else f c := by
  unfold parseCheckpoint
  split_ifs
  · rw [Logged.wp_bind, wp_decodeField hlen, and_iff_right hc]
    refine forall_congr' fun checkpoint => forall_congr' fun c₄ => imp_congr_right fun h₄ => ?_
    rw [Logged.wp_bind, wp_decodeField hlen, and_iff_right (sdnvAt_le hc h₄)]
    simp only [Logged.wp_pure, hbody]
  · rw [Logged.wp_pure, hbody]

/-- The control bytes of a red checkpoint. -/
theorem flagsOf_redCheckpoint {flags : ℕ} (h : flags < 8) (seg : LTPSegment) :
    ((flagsOf flags seg).redGreen = .red ∧ (flagsOf flags seg).isCheckpoint = true) ↔
      flags ∈ [1, 2, 3] := by
  interval_cases flags <;> simp [flagsOf, Nat.testBit]

theorem wp_parseData (hlen : length < 2 ^ 64) (hpos : 1 ≤ length)
    (hflags : (mem 0).toNat % 16 < 8) :
    (parseData mem length).All (Safe length) ↔
      ∀ engine c₁, sdnvAt mem length 1 = some (engine, c₁) →
      ∀ session c₂, sdnvAt mem length c₁ = some (session, c₂) →
        c₂ < length ∧ ExtensionsFramed mem length
          (DataFramed mem length (decide ((mem 0).toNat % 16 ∈ [1, 2, 3])))
          ((mem c₂).toNat / 16) { currentByte := c₂ + 1 } := by
  rw [← Logged.wp_true, parseData, Logged.wp_bind]
  refine wp_parseBuffer hlen hpos fun engineId sessionId c => ?_
  rw [Logged.wp_bind, wp_decodeField32 hlen, DataFramed]
  refine and_congr_right fun hc => ?_
  refine forall_congr' fun service => forall_congr' fun c₁ => imp_congr_right fun h₁ => ?_
  have hc₁ := sdnv32At_le hc h₁
  rw [Logged.wp_bind, wp_decodeField hlen, and_iff_right hc₁]
  refine forall_congr' fun offset => forall_congr' fun c₂ => imp_congr_right fun h₂ => ?_
  have hc₂ := sdnvAt_le hc₁ h₂
  rw [Logged.wp_bind, wp_decodeField hlen, and_iff_right hc₂]
  refine forall_congr' fun plen => forall_congr' fun c₃ => imp_congr_right fun h₃ => ?_
  have hc₃ := sdnvAt_le hc₂ h₃
  rw [Logged.wp_bind, wp_parseCheckpoint (f := fun c => PayloadFramed length c plen) hlen hc₃]
  · simp only [flagsOf_redCheckpoint hflags { engineId, sessionId }, decide_eq_true_eq]
  · intro checkpointId serialNumber c
    unfold PayloadFramed
    simp only
    by_cases hz : plen = 0
    · simp [hz]
    by_cases hcmp : i32 length < i32 (c + plen)
    · simp [hz, hcmp]
    rw [if_neg hz, if_neg hcmp, Logged.wp_bind, Logged.wp_note, imp_iff_right hz,
      imp_iff_right (not_lt.mp hcmp)]
    refine and_iff_left ?_
    split_ifs
    · simp
    · simp

theorem wp_parseClaims {n b : ℕ} {m : OrdMap ℕ LTPReportClaim}
    {q : ℕ × OrdMap ℕ LTPReportClaim × ℕ → Prop} {P : Prop} (hlen : length < 2 ^ 64)
    (hc : c ≤ length) (hq : ∀ c m b, c ≤ length → (q (c, m, b) ↔ P)) :
    (parseClaims mem length n c m b).Wp (Safe length) q ↔ (ClaimsFollow mem length n c → P) := by
  induction n generalizing c m b with
  | zero =>
    rw [parseClaims, Logged.wp_pure, hq _ _ _ hc, ClaimsFollow, imp_iff_right trivial]
  | succ n ih =>
    have hstep : (parseClaims mem length (n + 1) c m b).Wp (Safe length) q ↔
        ∀ offset c₁, sdnvAt mem length c = some (offset, c₁) →
        ∀ len c₂, sdnvAt mem length c₁ = some (len, c₂) → ClaimsFollow mem length n c₂ → P := by
      rw [parseClaims, Logged.wp_bind, wp_decodeField hlen, and_iff_right hc]
      refine forall_congr' fun offset => forall_congr' fun c₁ => imp_congr_right fun h₁ => ?_
      have hc₁ := sdnvAt_le hc h₁
      rw [Logged.wp_bind, wp_decodeField hlen, and_iff_right hc₁]
      refine forall_congr' fun len => forall_congr' fun c₂ => imp_congr_right fun h₂ => ?_
      exact ih (sdnvAt_le hc₁ h₂)
    rw [hstep, ClaimsFollow]
    constructor
    · rintro h ⟨offset, c₁, len, c₂, h₁, h₂, hrest⟩
      exact h offset c₁ h₁ len c₂ h₂ hrest
    · intro h offset c₁ h₁ len c₂ h₂ hrest
      exact h ⟨offset, c₁, len, c₂, h₁, h₂, hrest⟩

/-- A count survives the cast to `int` exactly below `2 ^ 31`. -/
theorem toNat_i32_eq_iff {count : ℕ} : (i32 count).toNat = count ↔ count < 2 ^ 31 := by
  constructor
  · intro h
    have := i32_lt count
    omega
  · intro h
    rw [i32_of_lt h, Int.toNat_natCast]

theorem wp_parseReport (hlen : length < 2 ^ 64) (hpos : 1 ≤ length) :
    (parseReport mem length).All (Safe length) ↔
      ∀ engine c₁, sdnvAt mem length 1 = some (engine, c₁) →
      ∀ session c₂, sdnvAt mem length c₁ = some (session, c₂) →
        c₂ < length ∧ ExtensionsFramed mem length (ReportFramed mem length)
          ((mem c₂).toNat / 16) { currentByte := c₂ + 1 } := by
  rw [← Logged.wp_true, parseReport, Logged.wp_bind]
  refine wp_parseBuffer hlen hpos fun engineId sessionId c => ?_
  unfold ReportFramed
  simp only
  by_cases hc : c ≤ length
  · rw [if_neg (by simpa using hc), imp_iff_right hc, Logged.wp_bind, wp_decodeField hlen,
      and_iff_right hc]
    refine forall_congr' fun serial => forall_congr' fun c₁ => imp_congr_right fun h₁ => ?_
    have hc₁ := sdnvAt_le hc h₁
    rw [Logged.wp_bind, wp_decodeField hlen, and_iff_right hc₁]
    refine forall_congr' fun checkpoint => forall_congr' fun c₂ => imp_congr_right fun h₂ => ?_
    have hc₂ := sdnvAt_le hc₁ h₂
    rw [Logged.wp_bind, wp_decodeField hlen, and_iff_right hc₂]
    refine forall_congr' fun upper => forall_congr' fun c₃ => imp_congr_right fun h₃ => ?_
    have hc₃ := sdnvAt_le hc₂ h₃
    rw [Logged.wp_bind, wp_decodeField hlen, and_iff_right hc₃]
    refine forall_congr' fun lower => forall_congr' fun c₄ => imp_congr_right fun h₄ => ?_
    have hc₄ := sdnvAt_le hc₃ h₄
    rw [Logged.wp_bind, wp_decodeField hlen, and_iff_right hc₄]
    refine forall_congr' fun count => forall_congr' fun c₅ => imp_congr_right fun h₅ => ?_
    have hc₅ := sdnvAt_le hc₄ h₅
    rw [Logged.wp_bind, wp_parseClaims (P := count < 2 ^ 31) hlen hc₅]
    · rw [imp_iff_not_or, or_comm]
    · intro c₆ claims claimedBytes hc₆
      simp only
      rw [if_neg (not_lt.mpr hc₆), Logged.wp_bind, Logged.wp_note, Safe, toNat_i32_eq_iff]
      simp
  · rw [if_pos (by simpa using hc)]
    simp [hc]

/-- A segment that has at most one number behind its header needs nothing more. -/
theorem wp_parseReportAck (hlen : length < 2 ^ 64) (hpos : 1 ≤ length) :
    (parseReportAck mem length).All (Safe length) ↔
      ∀ engine c₁, sdnvAt mem length 1 = some (engine, c₁) →
      ∀ session c₂, sdnvAt mem length c₁ = some (session, c₂) →
        c₂ < length ∧ ExtensionsFramed mem length (fun _ => True)
          ((mem c₂).toNat / 16) { currentByte := c₂ + 1 } := by
  rw [← Logged.wp_true, parseReportAck, Logged.wp_bind]
  refine wp_parseBuffer hlen hpos fun engineId sessionId c => ?_
  simp only [iff_true]
  split_ifs with hvalid
  · exact Logged.wp_fail
  · have hc : c ≤ length := by simpa using hvalid
    rw [Logged.wp_bind, wp_decodeField hlen, and_iff_right hc]
    intro serial c₁ h₁
    simp only
    split_ifs
    · exact Logged.wp_fail
    · exact (Logged.wp_pure _).mpr trivial

theorem wp_parseCancel {t : SegmentType} (hlen : length < 2 ^ 64) (hpos : 1 ≤ length) :
    (parseCancel mem length t).All (Safe length) ↔
      ∀ engine c₁, sdnvAt mem length 1 = some (engine, c₁) →
      ∀ session c₂, sdnvAt mem length c₁ = some (session, c₂) →
        c₂ < length ∧ ExtensionsFramed mem length (fun c => c ≠ length)
          ((mem c₂).toNat / 16) { currentByte := c₂ + 1 } := by
  rw [← Logged.wp_true, parseCancel, Logged.wp_bind]
  refine wp_parseBuffer hlen hpos fun engineId sessionId c => ?_
  simp only
  by_cases hc : c ≤ length
  · rw [if_neg (by simpa using hc), Logged.wp_bind, wp_peek]
    have hlast : (if length < c + 1 then (Logged.fail : Logged Event WireSegment) else
        pure (.cancel { flagsOf ((mem 0).toNat % 16) { engineId, sessionId } with
          segmentType := t, reasonCode := (mem c).toNat })).Wp (Safe length) (fun _ => True) := by
      split_ifs
      · exact Logged.wp_fail
      · exact (Logged.wp_pure _).mpr trivial
    rw [and_iff_left hlast]
    omega
  · rw [if_pos (by simpa using hc)]
    have hne : c ≠ length := by omega
    simp [hne]

theorem wp_parseCancelAck {t : SegmentType} (hlen : length < 2 ^ 64) (hpos : 1 ≤ length) :
    (parseCancelAck mem length t).All (Safe length) ↔
      ∀ engine c₁, sdnvAt mem length 1 = some (engine, c₁) →
      ∀ session c₂, sdnvAt mem length c₁ = some (session, c₂) →
        c₂ < length ∧ ExtensionsFramed mem length (fun _ => True)
          ((mem c₂).toNat / 16) { currentByte := c₂ + 1 } := by
  rw [← Logged.wp_true, parseCancelAck, Logged.wp_bind]
  refine wp_parseBuffer hlen hpos fun engineId sessionId c => ?_
  simp only [iff_true]
  split_ifs
  · exact Logged.wp_fail
  · exact (Logged.wp_pure _).mpr trivial

/-! ## The decoder -/

/-- The packet part of a framed packet, when its type is parsed. -/
theorem all_parseFor (hlen : length < 2 ^ 64) (hpos : 1 ≤ length)
    (hparsed : (mem 0).toNat % 16 ∉ [0x0A, 0x0B]) :
    (parseFor mem length ((mem 0).toNat % 16)).All (Safe length) ↔
      ∀ engine c₁, sdnvAt mem length 1 = some (engine, c₁) →
      ∀ session c₂, sdnvAt mem length c₁ = some (session, c₂) →
        c₂ < length ∧ ExtensionsFramed mem length (BodyFramed mem length ((mem 0).toNat % 16))
          ((mem c₂).toNat / 16) { currentByte := c₂ + 1 } := by
  have hlt : (mem 0).toNat % 16 < 16 := Nat.mod_lt _ (by norm_num)
  by_cases hdata : (mem 0).toNat % 16 < 8
  · have hbody : BodyFramed mem length ((mem 0).toNat % 16) =
        DataFramed mem length (decide ((mem 0).toNat % 16 ∈ [1, 2, 3])) := by
      funext c
      rw [BodyFramed, if_pos hdata]
    rw [hbody, parseFor, if_pos hdata]
    exact wp_parseData hlen hpos hdata
  · generalize (mem 0).toNat % 16 = flags at *
    have hbody : ∀ body : ℕ → Prop, (∀ c, BodyFramed mem length flags c ↔ body c) →
        BodyFramed mem length flags = body := fun body h => funext fun c => propext (h c)
    interval_cases flags
    · rw [parseFor_report, hbody (ReportFramed mem length) fun c => by simp [BodyFramed]]
      exact wp_parseReport hlen hpos
    · rw [parseFor_reportAck, hbody (fun _ => True) fun c => by simp [BodyFramed]]
      exact wp_parseReportAck hlen hpos
    · exact absurd (by decide) hparsed
    · exact absurd (by decide) hparsed
    · rw [parseFor_csBs, hbody (fun c => c ≠ length) fun c => by simp [BodyFramed]]
      exact wp_parseCancel hlen hpos
    · rw [parseFor_casBs, hbody (fun _ => True) fun c => by simp [BodyFramed]]
      exact wp_parseCancelAck hlen hpos
    · rw [parseFor_csBr, hbody (fun c => c ≠ length) fun c => by simp [BodyFramed]]
      exact wp_parseCancel hlen hpos
    · rw [parseFor_casBr, hbody (fun _ => True) fun c => by simp [BodyFramed]]
      exact wp_parseCancelAck hlen hpos

/-- Every parser begins with a number at the second byte, for all the length that it was given. -/
theorem parseBuffer_first {seen : ℕ} {f : Header → Logged Event WireSegment}
    (h : (parseBuffer mem seen >>= f).All (Safe length)) : 1 + u64Sub seen 1 = length := by
  rw [Logged.all_bind] at h
  obtain ⟨h, -⟩ := h
  rw [parseBuffer, Logged.all_bind] at h
  obtain ⟨-, h⟩ := h
  have h := h (mem 0) rfl
  rw [Logged.all_bind, decodeField, Logged.all_bind, decode, Logged.all_bind, Logged.all_note] at h
  exact h.1.1.1

theorem parseFor_first {seen flags : ℕ} (hlt : flags < 16) (hparsed : flags ∉ [0x0A, 0x0B])
    (h : (parseFor mem seen flags).All (Safe length)) : 1 + u64Sub seen 1 = length := by
  unfold parseFor at h
  split_ifs at h
  · exact parseBuffer_first h
  · exact parseBuffer_first h
  · exact parseBuffer_first h
  · exact parseBuffer_first h
  · exact parseBuffer_first h
  · exact parseBuffer_first h
  · exact parseBuffer_first h
  · simp only [List.mem_cons, List.not_mem_nil] at hparsed
    omega

theorem seen_eq {seen : ℕ} (hseen : seen < 2 ^ 64) (hlen : length < 2 ^ 64)
    (h : 1 + u64Sub seen 1 = length) : seen = length := by
  rcases Nat.eq_zero_or_pos seen with rfl | hpos
  · have hwrap : u64Sub 0 1 = 2 ^ 64 - 1 := by decide +kernel
    omega
  · rw [u64Sub_of_le hseen hpos] at h
    omega

/-- The decoder stays inside its buffer exactly on framed packets. -/
theorem decodeBuffer_safe_iff (mem : ℕ → UInt8) (length : ℕ) (hpos : 1 ≤ length)
    (hlen : length < 2 ^ 64) :
    (decodeBuffer mem length).All (Safe length) ↔ Framed mem length := by
  have hlt : (mem 0).toNat % 16 < 16 := Nat.mod_lt _ (by norm_num)
  have hdecode : (decodeBuffer mem length).All (Safe length) ↔
      (parseFor mem (u64OfInt (i32 length)) ((mem 0).toNat % 16)).All (Safe length) := by
    rw [decodeBuffer, Logged.all_bind, all_peek, and_iff_right (by omega)]
    exact ⟨fun h => h (mem 0) rfl, fun h first hfirst => by cases hfirst; exact h⟩
  rw [hdecode, Framed]
  by_cases hparsed : (mem 0).toNat % 16 ∈ [0x0A, 0x0B]
  · refine iff_of_true ?_ (Or.inl hparsed)
    simp only [List.mem_cons, List.not_mem_nil, or_false] at hparsed
    rcases hparsed with h | h
    · simp [h, parseFor]
    · simp [h, parseFor]
  · rw [or_iff_right hparsed]
    constructor
    · intro hall
      have hsame := seen_eq (u64OfInt_lt _) hlen (parseFor_first hlt hparsed hall)
      rw [hsame] at hall
      exact ⟨hsame, (all_parseFor hlen hpos hparsed).mp hall⟩
    · rintro ⟨hsame, hframed⟩
      rw [hsame]
      exact (all_parseFor hlen hpos hparsed).mpr hframed

/-- The report of one claim of five bytes, answering checkpoint 300. -/
def oneClaim : List UInt8 := [8, 22, 7, 0, 1, 130, 44, 5, 0, 1, 0, 5]

theorem decodeBuffer_safe_oneClaim :
    (decodeBuffer (memOf oneClaim 0) 12).All (Safe 12) ∧ Framed (memOf oneClaim 0) 12 := by
  have hall : (decodeBuffer (memOf oneClaim 0) 12).All (Safe 12) := by
    decide +kernel
  exact ⟨hall, (decodeBuffer_safe_iff _ 12 (by norm_num) (by norm_num)).mp hall⟩

/-- An acknowledgment that ends with its session id: the extension count is read behind it. -/
theorem decodeBuffer_reads_past_end :
    ¬ ∀ (mem : ℕ → UInt8) (length : ℕ), 1 ≤ length → length < 2 ^ 64 →
      (decodeBuffer mem length).All (Safe length) := by
  intro h
  have hread : ¬ (decodeBuffer (memOf [9, 22, 7] 0) 3).All (Safe 3) := by
    decide +kernel
  exact hread (h _ 3 (by norm_num) (by norm_num))

end Dtnme.Ltp
