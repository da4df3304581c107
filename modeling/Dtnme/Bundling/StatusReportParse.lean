import Dtnme.Bundling.CborReaders
import Dtnme.Bundling.StatusReport

/-! # Reading a status report

The reader goes over up to 64 indications and keeps the first four. What it returns is what the bytes
denote; only a source that is an array of the number of `dtn` and of something that is neither a number
nor a text makes it abort.
-/

namespace Dtnme.Bundling.BundleStatusReport
open Library Naming TinyCbor Decoder

/-- `data_t`. -/
structure ReportData where
  received : Bool := false
  receivedTimestamp : ℕ := 0
  forwarded : Bool := false
  forwardedTimestamp : ℕ := 0
  delivered : Bool := false
  deliveredTimestamp : ℕ := 0
  deleted : Bool := false
  deletedTimestamp : ℕ := 0
  reasonCode : ℕ := 0
  origSourceEid : Option Eid := none
  origCreationTs : ℕ × ℕ := (0, 0)
  origFragOffset : ℕ := 0
  origFragLength : ℕ := 0
  deriving DecidableEq

/-- An indication and its time, kept if it is one of the first four. -/
def ReportData.set (sr : ReportData) (indicator : ℕ) (i : ℕ × ℕ) : ReportData :=
  match indicator with
  | 1 => { sr with received := i.1 = 1, receivedTimestamp := i.2 }
  | 2 => { sr with forwarded := i.1 = 1, forwardedTimestamp := i.2 }
  | 3 => { sr with delivered := i.1 = 1, deliveredTimestamp := i.2 }
  | 4 => { sr with deleted := i.1 = 1, deletedTimestamp := i.2 }
  | _ => sr

section
variable {ω : Type}

def parseIndicatorElements (numElements : ℕ) (it : CborValue) : Decode ω ((ℕ × ℕ) × CborValue) := do
  let (indicated, it) ← decodeUint it
  if numElements = 2 then do
    let (timestamp, it) ← decodeUint it
    pure ((indicated, timestamp), it)
  else pure ((indicated, 0), it)

/-- The loop over the indications; `n` of them are left. -/
def parseIndicators : ℕ → ℕ → ReportData → CborValue → Decode ω (ReportData × CborValue)
  | 0, _, sr, it => pure (sr, it)
  | n + 1, indicator, sr, it => do
    let (i, it) ← readArray 1 2 parseIndicatorElements it
    parseIndicators n (indicator + 1) (sr.set indicator i) it

def parseStatusIndicationArray (sr : ReportData) (it : CborValue) : Decode ω (ReportData × CborValue) :=
  readArray 4 64 (fun n => parseIndicators n 1 sr) it

/-- `decode_bundle_timestamp`. -/
def decodeBundleTimestamp (it : CborValue) : Decode ω ((ℕ × ℕ) × CborValue) :=
  decodeNumbersSsp Prod.mk it

/-- The last elements, of a fragment only. -/
def parseFragmentElements (arrayElements : ℕ) (sr : ReportData) (it : CborValue) :
    Decode ω (ReportData × CborValue) :=
  if arrayElements = 6 then do
    let (offset, it) ← decodeUint it
    let (length, it) ← decodeUint it
    pure ({ sr with origFragOffset := offset, origFragLength := length }, it)
  else pure (sr, it)

def parseReportElements (arrayElements : ℕ) (it : CborValue) : Decode ω (ReportData × CborValue) := do
  let (sr, it) ← parseStatusIndicationArray {} it
  let (reason, it) ← decodeUint it
  let (source, it) ← decodeEid it
  let (ts, it) ← decodeBundleTimestamp it
  parseFragmentElements arrayElements
    { sr with reasonCode := reason, origSourceEid := some source, origCreationTs := ts } it

/-- `parse_status_report`; the array of the report is not left. -/
def parseStatusReport (it : CborValue) : Decode ω ReportData := do
  let arrayElements ← validateCborFixedArrayLength it 4 6
  if arrayElements = 5 then fail .fail
  else do
    let elements ← enterContainer it
    let (sr, _) ← parseReportElements arrayElements elements
    pure sr

/-- What the administrative registration does with a payload, up to the report. -/
def deliverStatusReport : Decode ω ReportData := do
  let payloadArray ← cborParserInit
  let _ ← validateCborFixedArrayLength payloadArray 2 2
  let elements ← enterContainer payloadArray
  let (adminType, elements) ← decodeUint elements
  if adminType = adminStatusReport then parseStatusReport elements else fail .fail

end

/-! ## The grammar -/

/-- The elements of an indication: whether it is indicated, and a time. -/
inductive IndicatorElements : ℕ → ℕ × ℕ → List UInt8 → Prop
  | plain {n h} (hh : Cbor.IsHead 0 n h) : IndicatorElements 1 (n, 0) h
  | timed {n t h k} (hh : Cbor.IsHead 0 n h) (hk : Cbor.IsHead 0 t k) :
      IndicatorElements 2 (n, t) (h ++ k)

inductive Indicators : List (ℕ × ℕ) → List UInt8 → Prop
  | nil : Indicators [] []
  | cons {i l x y} (hi : ArrayOf 1 2 IndicatorElements i x) (hl : Indicators l y) :
      Indicators (i :: l) (x ++ y)

/-- Between 4 and 64 indications. -/
def IndicationArray : List (ℕ × ℕ) → List UInt8 → Prop :=
  ArrayOf 4 64 fun n l x => l.length = n ∧ Indicators l x

inductive TimestampElements : ℕ × ℕ → List UInt8 → Prop
  | mk {n m x y} (hx : Cbor.IsHead 0 n x) (hy : Cbor.IsHead 0 m y) : TimestampElements (n, m) (x ++ y)

def TimestampItem : ℕ × ℕ → List UInt8 → Prop := ArrayOf 2 2 fun _ => TimestampElements

/-- Nothing, or the place of a fragment. -/
inductive FragmentElements : ℕ → ℕ × ℕ → List UInt8 → Prop
  | whole : FragmentElements 4 (0, 0) []
  | fragment {n m x y} (hx : Cbor.IsHead 0 n x) (hy : Cbor.IsHead 0 m y) :
      FragmentElements 6 (n, m) (x ++ y)

/-- The first four indications with their times, and the other fields. -/
def dataOf (l : List (ℕ × ℕ)) (reason : ℕ) (source : Eid) (ts place : ℕ × ℕ) : ReportData where
  received := (l.getD 0 (0, 0)).1 = 1
  receivedTimestamp := (l.getD 0 (0, 0)).2
  forwarded := (l.getD 1 (0, 0)).1 = 1
  forwardedTimestamp := (l.getD 1 (0, 0)).2
  delivered := (l.getD 2 (0, 0)).1 = 1
  deliveredTimestamp := (l.getD 2 (0, 0)).2
  deleted := (l.getD 3 (0, 0)).1 = 1
  deletedTimestamp := (l.getD 3 (0, 0)).2
  reasonCode := reason
  origSourceEid := some source
  origCreationTs := ts
  origFragOffset := place.1
  origFragLength := place.2

/-- The bytes of a report. -/
inductive ReportItem : ReportData → List UInt8 → Prop
  | mk {n a l is reason r source s ts t place p} (ha : Cbor.IsHead 4 n a) (hl : IndicationArray l is)
      (hr : Cbor.IsHead 0 reason r) (hs : EidItem source s) (ht : TimestampItem ts t)
      (hp : FragmentElements n place p) :
      ReportItem (dataOf l reason source ts place) (a ++ (is ++ (r ++ (s ++ (t ++ p)))))

/-- A report up to a source that the reader cannot leave. -/
inductive StuckReport : List UInt8 → Prop
  | mk {n a l is reason r s tail} (hn : n = 4 ∨ n = 6) (ha : Cbor.IsHead 4 n a)
      (hl : IndicationArray l is) (hr : Cbor.IsHead 0 reason r) (hs : DtnOther s)
      (htail : Cbor.Items (n - 3) tail) : StuckReport (a ++ (is ++ (r ++ (s ++ tail))))

/-! ## The readers and the grammar -/

section
variable {ω : Type}

theorem sticksThen_never {α : Type} {n : ℕ} {denotes : α → List UInt8 → Prop}
    {after : α → List UInt8 → Prop} (hafter : ∀ a y, ¬ after a y) (z : List UInt8) :
    SticksThen n denotes never after z ↔ never z := by
  constructor
  · rintro ⟨x, y, h | ⟨a, -, h⟩, -⟩
    · exact h
    · exact hafter a y h
  · exact fun h => h.elim

theorem sticksIn_never {lo hi : ℕ} (z : List UInt8) : SticksIn lo hi (fun _ => never) z ↔ never z := by
  constructor
  · rintro ⟨v, h, body, -, -, -, ⟨hs, -⟩, -⟩
    exact hs
  · exact fun h => h.elim

theorem decides_uints {α : Type} (f : ℕ → ℕ → α) :
    Decides (fun it => decodeUint (ω := ω) it >>= fun n => decodeUint n.2 >>= fun m =>
      pure (f n.1 m.1, m.2)) 2
      (fun a z => ∃ n m x y, Cbor.IsHead 0 n x ∧ Cbor.IsHead 0 m y ∧ a = f n m ∧ z = x ++ y) never := by
  refine Decides.congr (decides_uint.bind fun n => decides_uint.bind fun m => decides_pure (f n m))
    (fun a z => ?_) (sticksThen_never fun n z => ?_)
  · constructor
    · rintro ⟨n, x, y, hx, ⟨m, y, t, hy, ⟨rfl, rfl⟩, -, rfl⟩, -, rfl⟩
      exact ⟨n, m, x, y, hx, hy, rfl, by rw [List.append_nil]⟩
    · rintro ⟨n, m, x, y, hx, hy, rfl, rfl⟩
      exact ⟨n, x, y, hx, ⟨m, y, [], hy, ⟨rfl, rfl⟩, .nil, (List.append_nil y).symm⟩, items_uint hy, rfl⟩
  · exact (sticksThen_never (fun _ _ => id) z).mp

theorem decides_indicatorElements {v : ℕ} (hlo : 1 ≤ v) (hhi : v ≤ 2) :
    Decides (parseIndicatorElements (ω := ω) v) v (IndicatorElements v) never := by
  obtain rfl | rfl : v = 1 ∨ v = 2 := by omega
  · refine Decides.congr (decides_uint.bind fun n => decides_pure (n, 0)) (fun i x => ?_)
      (sticksThen_never fun _ _ => id)
    constructor
    · rintro ⟨n, h, y, hh, ⟨rfl, rfl⟩, -, rfl⟩
      rw [List.append_nil]
      exact .plain hh
    · rintro ⟨hh⟩
      exact ⟨_, x, [], hh, ⟨rfl, rfl⟩, .nil, (List.append_nil x).symm⟩
  · refine Decides.congr (decides_uints Prod.mk) (fun i x => ?_) (fun _ => Iff.rfl)
    constructor
    · rintro ⟨n, t, h, k, hh, hk, rfl, rfl⟩
      exact .timed hh hk
    · rintro ⟨⟩
      exact ⟨_, _, _, _, ‹_›, ‹_›, rfl, rfl⟩

theorem decides_timestamp : Decides (decodeBundleTimestamp (ω := ω)) 1 TimestampItem never := by
  have harray : Decides (readArray (ω := ω) 2 2 fun _ it => decodeUint it >>= fun n =>
      decodeUint n.2 >>= fun m => pure ((n.1, m.1), m.2)) 1 (ArrayOf 2 2 fun _ => TimestampElements)
      (SticksIn 2 2 fun _ => never) := by
    refine Decides.array (fun v hlo hhi => ?_) (by norm_num [uint32Max])
    obtain rfl : v = 2 := by omega
    refine Decides.congr (decides_uints Prod.mk) (fun i x => ?_) (fun _ => Iff.rfl)
    constructor
    · rintro ⟨n, m, x, y, hx, hy, rfl, rfl⟩
      exact .mk hx hy
    · rintro ⟨hx, hy⟩
      exact ⟨_, _, _, _, hx, hy, rfl, rfl⟩
  have heq : decodeBundleTimestamp (ω := ω) = readArray 2 2 fun _ it => decodeUint it >>= fun n =>
      decodeUint n.2 >>= fun m => pure ((n.1, m.1), m.2) := by
    funext it
    simp only [decodeBundleTimestamp, decodeNumbersSsp, readArray, decode_bind_assoc, decode_pure_bind]
  rw [heq]
  exact harray.congr (fun _ _ => Iff.rfl) sticksIn_never

/-- The loop, with the indications that are left. -/
def setAll : ℕ → ReportData → List (ℕ × ℕ) → ReportData
  | _, sr, [] => sr
  | indicator, sr, i :: l => setAll (indicator + 1) (sr.set indicator i) l

theorem decides_indicators (n indicator : ℕ) (sr : ReportData) :
    Decides (parseIndicators (ω := ω) n indicator sr) n
      (fun sr' x => ∃ l, l.length = n ∧ Indicators l x ∧ sr' = setAll indicator sr l) never := by
  have hone : Decides (readArray (ω := ω) 1 2 parseIndicatorElements) 1 (ArrayOf 1 2 IndicatorElements)
      never :=
    (Decides.array (fun v hlo hhi => decides_indicatorElements hlo hhi)
      (by norm_num [uint32Max])).congr (fun _ _ => Iff.rfl) sticksIn_never
  induction n generalizing indicator sr with
  | zero =>
    refine (decides_pure sr).congr (fun sr' x => ?_) (fun _ => Iff.rfl)
    constructor
    · rintro ⟨rfl, rfl⟩
      exact ⟨[], rfl, .nil, rfl⟩
    · rintro ⟨l, hl, hx, rfl⟩
      obtain rfl := List.length_eq_zero_iff.mp hl
      cases hx
      exact ⟨rfl, rfl⟩
  | succ n ih =>
    refine Decides.congr (hone.bind fun i => ih (indicator + 1) (sr.set indicator i))
      (fun sr' z => ?_) (sticksThen_never fun _ _ => id)
    constructor
    · rintro ⟨i, x, y, hx, ⟨l, rfl, hl, rfl⟩, -, rfl⟩
      exact ⟨i :: l, rfl, .cons hx hl, rfl⟩
    · rintro ⟨l, hlen, hl, rfl⟩
      cases hl with
      | nil => cases hlen
      | @cons i l x y hi hl =>
        rw [List.length_cons, Nat.add_right_cancel_iff] at hlen
        exact ⟨i, x, y, hi, ⟨l, hlen, hl, rfl⟩,
          (ih (indicator + 1) (sr.set indicator i)).wellFormed ⟨l, hlen, hl, rfl⟩, rfl⟩

theorem decides_indicationArray (sr : ReportData) :
    Decides (parseStatusIndicationArray (ω := ω) sr) 1
      (fun sr' x => ∃ l, IndicationArray l x ∧ sr' = setAll 1 sr l) never := by
  have harray := Decides.array (fun v (_ : 4 ≤ v) (_ : v ≤ 64) => decides_indicators (ω := ω) v 1 sr)
    (by norm_num [uint32Max])
  refine harray.congr (fun sr' x => ?_) sticksIn_never
  constructor
  · rintro ⟨v, h, body, hlo, hhi, hh, ⟨l, hlen, hl, rfl⟩, rfl⟩
    exact ⟨l, ⟨v, h, body, hlo, hhi, hh, ⟨hlen, hl⟩, rfl⟩, rfl⟩
  · rintro ⟨l, ⟨v, h, body, hlo, hhi, hh, ⟨hlen, hl⟩, rfl⟩, rfl⟩
    exact ⟨v, h, body, hlo, hhi, hh, ⟨l, hlen, hl, rfl⟩, rfl⟩

theorem setAll_later (l : List (ℕ × ℕ)) (indicator : ℕ) (h : 4 < indicator) (sr : ReportData) :
    setAll indicator sr l = sr := by
  induction l generalizing indicator with
  | nil => rfl
  | cons i l ih =>
    have hset : sr.set indicator i = sr := by
      unfold ReportData.set
      split <;> first | omega | rfl
    rw [setAll, hset]
    exact ih (indicator + 1) (by omega)

/-- The elements of a report, behind the head of its array. -/
def ReportElements (n : ℕ) (sr : ReportData) (x : List UInt8) : Prop :=
  ∃ l is reason r source s ts t place p, IndicationArray l is ∧ Cbor.IsHead 0 reason r ∧
    EidItem source s ∧ TimestampItem ts t ∧ FragmentElements n place p ∧
      sr = dataOf l reason source ts place ∧ x = is ++ (r ++ (s ++ (t ++ p)))

def StuckElements (n : ℕ) (x : List UInt8) : Prop :=
  ∃ l is reason r s tail, IndicationArray l is ∧ Cbor.IsHead 0 reason r ∧ DtnOther s ∧
    Cbor.Items (n - 3) tail ∧ x = is ++ (r ++ (s ++ tail))

theorem decides_fragmentElements {n k : ℕ} (hn : n = 4 ∧ k = 0 ∨ n = 6 ∧ k = 2) (sr : ReportData) :
    Decides (parseFragmentElements (ω := ω) n sr) k
      (fun sr' x => ∃ place, FragmentElements n place x ∧
        sr' = { sr with
          origFragOffset := if n = 6 then place.1 else sr.origFragOffset
          origFragLength := if n = 6 then place.2 else sr.origFragLength }) never := by
  rcases hn with ⟨rfl, rfl⟩ | ⟨rfl, rfl⟩
  · refine (decides_pure sr).congr (fun sr' x => ?_) (fun _ => Iff.rfl)
    constructor
    · rintro ⟨rfl, rfl⟩
      exact ⟨(0, 0), .whole, rfl⟩
    · rintro ⟨place, ⟨⟩, rfl⟩
      exact ⟨rfl, rfl⟩
  · refine Decides.congr (decides_uints fun offset length => ({ sr with
      origFragOffset := offset, origFragLength := length } : ReportData)) (fun sr' x => ?_)
      (fun _ => Iff.rfl)
    constructor
    · rintro ⟨offset, length, y, z, hy, hz, rfl, rfl⟩
      exact ⟨(offset, length), .fragment hy hz, rfl⟩
    · rintro ⟨place, ⟨hy, hz⟩, rfl⟩
      exact ⟨_, _, _, _, ‹_›, ‹_›, rfl, rfl⟩

theorem setAll_first {l : List (ℕ × ℕ)} (h : 4 ≤ l.length) (reason : ℕ) (source : Eid)
    (ts place : ℕ × ℕ) :
    { setAll 1 {} l with
      reasonCode := reason, origSourceEid := some source, origCreationTs := ts
      origFragOffset := place.1, origFragLength := place.2 } = dataOf l reason source ts place := by
  match l, h with
  | a :: b :: c :: d :: l, _ =>
    simp only [setAll]
    rw [setAll_later l _ (by omega)]
    rfl

theorem IndicationArray.length_le {l : List (ℕ × ℕ)} {x : List UInt8} (h : IndicationArray l x) :
    4 ≤ l.length := by
  obtain ⟨v, _, _, hlo, -, -, ⟨rfl, -⟩, -⟩ := h
  exact hlo

/-- A report without a place has the place that a new one starts with. -/
theorem setAll_place (l : List (ℕ × ℕ)) (indicator : ℕ) (sr : ReportData) :
    (setAll indicator sr l).origFragOffset = sr.origFragOffset ∧
      (setAll indicator sr l).origFragLength = sr.origFragLength := by
  induction l generalizing indicator sr with
  | nil => exact ⟨rfl, rfl⟩
  | cons i l ih =>
    have hset : (sr.set indicator i).origFragOffset = sr.origFragOffset ∧
        (sr.set indicator i).origFragLength = sr.origFragLength := by
      unfold ReportData.set
      split <;> exact ⟨rfl, rfl⟩
    obtain ⟨ho, hl⟩ := ih (indicator + 1) (sr.set indicator i)
    exact ⟨ho.trans hset.1, hl.trans hset.2⟩

theorem dataOf_eq {n : ℕ} {l : List (ℕ × ℕ)} {p is : List UInt8} {place : ℕ × ℕ}
    (hp : FragmentElements n place p) (hl : IndicationArray l is) (reason : ℕ) (source : Eid)
    (ts : ℕ × ℕ) :
    { setAll 1 {} l with
      reasonCode := reason, origSourceEid := some source, origCreationTs := ts
      origFragOffset := if n = 6 then place.1 else (setAll 1 {} l).origFragOffset
      origFragLength := if n = 6 then place.2 else (setAll 1 {} l).origFragLength } =
      dataOf l reason source ts place := by
  rw [← setAll_first hl.length_le]
  cases hp with
  | whole => simp only [setAll_place, Nat.reduceEqDiff, if_false]
  | fragment _ _ => rfl

theorem decides_elements {n k : ℕ} (hn : n = 4 ∧ k = 0 ∨ n = 6 ∧ k = 2) :
    Decides (parseReportElements (ω := ω) n) (k + 4) (ReportElements n) (StuckElements n) := by
  have hchain := (decides_indicationArray (ω := ω) {}).bind fun sr => decides_uint.bind fun reason =>
    decides_eid.bind fun source => decides_timestamp.bind fun ts => decides_fragmentElements hn
      { sr with reasonCode := reason, origSourceEid := some source, origCreationTs := ts }
  refine hchain.congr (fun sr x => ?_) (fun x => ?_)
  · constructor
    · rintro ⟨_, is, _, ⟨l, hl, rfl⟩, ⟨reason, r, _, hr, ⟨source, s, _, hs, ⟨ts, t, p, ht,
        ⟨place, hp, rfl⟩, -, rfl⟩, -, rfl⟩, -, rfl⟩, -, rfl⟩
      exact ⟨l, is, reason, r, source, s, ts, t, place, p, hl, hr, hs, ht, hp,
        dataOf_eq hp hl reason source ts, rfl⟩
    · rintro ⟨l, is, reason, r, source, s, ts, t, place, p, hl, hr, hs, ht, hp, rfl, rfl⟩
      have hplace : Cbor.Items k p := (decides_fragmentElements (ω := ω) hn {}).wellFormed ⟨place, hp, rfl⟩
      have htimes : Cbor.Items (k + 1) (t ++ p) :=
        Nat.add_comm 1 k ▸ (decides_timestamp (ω := ω).wellFormed ht).append hplace
      have hsource : Cbor.Items (k + 2) (s ++ (t ++ p)) :=
        Nat.add_comm 1 (k + 1) ▸ (eidItem_items hs).append htimes
      have hreason : Cbor.Items (k + 3) (r ++ (s ++ (t ++ p))) :=
        Nat.add_comm 1 (k + 2) ▸ (items_uint hr).append hsource
      exact ⟨_, is, _, ⟨l, hl, rfl⟩, ⟨reason, r, _, hr, ⟨source, s, _, hs, ⟨ts, t, p, ht,
        ⟨place, hp, (dataOf_eq hp hl reason source ts).symm⟩, hplace, rfl⟩, htimes, rfl⟩, hsource, rfl⟩,
        hreason, rfl⟩
  · have hk : n - 3 = k + 1 := by omega
    constructor
    · rintro ⟨is, _, hstuck | ⟨_, ⟨l, hl, rfl⟩, r, _, hstuck | ⟨reason, hr, s, tail, hstuck |
        ⟨source, hs, hstuck⟩, -, htail, rfl⟩, -, -, rfl⟩, -, -, rfl⟩
      · exact hstuck.elim
      · exact hstuck.elim
      · exact ⟨l, is, reason, r, s, tail, hl, hr, hstuck, hk ▸ htail, rfl⟩
      · exact absurd hstuck (sticksThen_never (fun _ _ => id) _).mp
    · rintro ⟨l, is, reason, r, s, tail, hl, hr, hs, htail, rfl⟩
      rw [hk] at htail
      have hsource : Cbor.Items (k + 2) (s ++ tail) :=
        Nat.add_comm 1 (k + 1) ▸ (dtnOther_items hs).append htail
      have hreason : Cbor.Items (k + 3) (r ++ (s ++ tail)) :=
        Nat.add_comm 1 (k + 2) ▸ (items_uint hr).append hsource
      have hones : Cbor.Items 1 is := (decides_indicationArray (ω := ω) {}).wellFormed ⟨l, hl, rfl⟩
      exact ⟨is, _, .inr ⟨_, ⟨l, hl, rfl⟩, r, _, .inr ⟨reason, hr, s, tail, .inl hs, dtnOther_items hs,
        htail, rfl⟩, items_uint hr, hsource, rfl⟩, hones, hreason, rfl⟩

/-! ## A whole report -/

variable {buf rest item others : List UInt8} {p r : ℕ} {it : CborValue} {sr : ReportData}

theorem fragmentElements_size {n : ℕ} {place : ℕ × ℕ} {x : List UInt8}
    (h : FragmentElements n place x) : n = 4 ∧ n - 4 = 0 ∨ n = 6 ∧ n - 4 = 2 := by
  cases h with
  | whole => exact .inl ⟨rfl, rfl⟩
  | fragment _ _ => exact .inr ⟨rfl, rfl⟩

theorem reportElements_iff : ReportItem sr item ↔
    ∃ n h body, Cbor.IsHead 4 n h ∧ ReportElements n sr body ∧ item = h ++ body := by
  constructor
  · rintro ⟨ha, hl, hr, hs, ht, hp⟩
    exact ⟨_, _, _, ha, ⟨_, _, _, _, _, _, _, _, _, _, hl, hr, hs, ht, hp, rfl, rfl⟩, rfl⟩
  · rintro ⟨n, h, body, hh, ⟨l, is, reason, x, source, s, ts, t, place, y, hl, hr, hs, ht, hp, rfl, rfl⟩,
      rfl⟩
    exact .mk hh hl hr hs ht hp

theorem reportItem_items (h : ReportItem sr item) : Cbor.Items 1 item := by
  obtain ⟨n, hd, body, hh, helements, rfl⟩ := reportElements_iff.mp h
  have hn : n = 4 ∧ n - 4 = 0 ∨ n = 6 ∧ n - 4 = 2 := by
    obtain ⟨_, _, _, _, _, _, _, _, _, _, -, -, -, -, hp, -, -⟩ := helements
    exact fragmentElements_size hp
  have hbody := (decides_elements (ω := Empty) hn).wellFormed helements
  rw [show n - 4 + 4 = n by omega] at hbody
  simpa using Cbor.Items.array hh hbody .nil

/-- Into a report of four or six elements. -/
theorem parseStatusReport_enter {n : ℕ} {h body : List UInt8} (hn : n = 4 ∨ n = 6)
    (hat : Upcoming buf p rest r 1 (h ++ body) others it) (hh : Cbor.IsHead 4 n h)
    (hbody : Cbor.Items n body) :
    ∃ inner, Upcoming buf (p + h.length) (others ++ rest) 0 n body [] inner ∧
      parseStatusReport (ω := ω) it buf =
        (parseReportElements n inner >>= fun x => pure x.1) buf := by
  obtain ⟨hvalid, ⟨inner, henter, hinner⟩, -⟩ :=
    hat.enter (ω := ω) hh hbody (show 4 ≤ n by omega) (show n ≤ 6 by omega)
      (by norm_num [uint32Max]; omega)
  refine ⟨inner, hinner, ?_⟩
  unfold parseStatusReport
  rw [bind_of_done hvalid, if_neg (by omega), bind_of_done henter]

theorem parseStatusReport_reads (hat : Upcoming buf p rest r 1 item others it) (hitem : ReportItem sr item) :
    parseStatusReport (ω := ω) it buf = ([], .done sr) := by
  obtain ⟨n, h, body, hh, helements, rfl⟩ := reportElements_iff.mp hitem
  have hn : n = 4 ∧ n - 4 = 0 ∨ n = 6 ∧ n - 4 = 2 := by
    obtain ⟨_, _, _, _, _, _, _, _, _, _, -, -, -, -, hp, -, -⟩ := helements
    exact fragmentElements_size hp
  have hreads := decides_elements (ω := ω) hn
  rw [show n - 4 + 4 = n by omega] at hreads
  obtain ⟨inner, hinner, heq⟩ :=
    parseStatusReport_enter (ω := ω) (by omega) hat hh (hreads.wellFormed helements)
  obtain ⟨next, hnext, -⟩ := hreads.reads hinner helements
  rw [heq, bind_of_done hnext]
  rfl

theorem parseStatusReport_aborts (hat : Upcoming buf p rest r 1 item others it)
    (hitem : StuckReport item) : parseStatusReport (ω := ω) it buf = ([], .stop .abort) := by
  obtain ⟨hn, ha, hl, hr, hs, htail⟩ := hitem
  rename_i n a l is reason r' s tail
  have hreads := decides_elements (ω := ω) (show n = 4 ∧ n - 4 = 0 ∨ n = 6 ∧ n - 4 = 2 by omega)
  rw [show n - 4 + 4 = n by omega] at hreads
  have hbody : Cbor.Items n (is ++ (r' ++ (s ++ tail))) := by
    have hones : Cbor.Items 1 is := (decides_indicationArray (ω := ω) {}).wellFormed ⟨l, hl, rfl⟩
    have hall := hones.append ((items_uint hr).append ((dtnOther_items hs).append htail))
    rwa [show 1 + (1 + (1 + (n - 3))) = n by omega] at hall
  obtain ⟨inner, hinner, heq⟩ := parseStatusReport_enter (ω := ω) hn hat ha hbody
  rw [heq]
  exact bind_of_stop (hreads.aborts hinner ⟨l, is, reason, r', s, tail, hl, hr, hs, htail, rfl⟩)

theorem parseStatusReport_refuses (hat : Upcoming buf p rest r 1 item others it)
    (hnot : ∀ sr, ¬ ReportItem sr item) (hstuck : ¬ StuckReport item) :
    parseStatusReport (ω := ω) it buf = ([], .stop .fail) := by
  by_cases harray : ∃ n h body, 4 ≤ n ∧ n ≤ 6 ∧ Cbor.IsHead 4 n h ∧ Cbor.Items n body ∧ item = h ++ body
  · obtain ⟨n, h, body, hlo, hhi, hh, hbody, rfl⟩ := harray
    by_cases hfive : n = 5
    · obtain ⟨hvalid, -⟩ := hat.enter (ω := ω) hh hbody hlo hhi (by norm_num [uint32Max]; omega)
      unfold parseStatusReport
      rw [bind_of_done hvalid, if_pos hfive]
      rfl
    · have hreads := decides_elements (ω := ω) (show n = 4 ∧ n - 4 = 0 ∨ n = 6 ∧ n - 4 = 2 by omega)
      rw [show n - 4 + 4 = n by omega] at hreads
      obtain ⟨inner, hinner, heq⟩ := parseStatusReport_enter (ω := ω) (by omega) hat hh hbody
      rw [heq]
      refine bind_of_stop (hreads.refuses hinner (fun sr hsr => ?_) fun hs => ?_)
      · exact hnot sr (reportElements_iff.mpr ⟨n, h, body, hh, hsr, rfl⟩)
      · obtain ⟨l, is, reason, r', s, tail, hl, hr, hs, htail, rfl⟩ := hs
        exact hstuck (.mk (by omega) hh hl hr hs htail)
  · refine bind_of_stop (hat.validate_fails fun n h body hlo hhi hh hbody heq => ?_)
    exact harray ⟨n, h, body, hlo, hhi, hh, hbody, heq⟩

end

end Dtnme.Bundling.BundleStatusReport
