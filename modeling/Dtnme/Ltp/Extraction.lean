import Dtnme.Bundling.Sdnv
import Dtnme.Library.Transition

/-! # Extraction of bundles

The receiver feeds the payloads of a full block, one data segment after another, to
`BundleProtocol::consume`, which is a parameter here. Bytes that it leaves go to a scratch
buffer and are put in front of the next segment. The bundles do not depend on the cut as
long as what is left of a segment fits the size that the scratch buffer gets. Quotas,
which may drop a bundle after it was extracted, are left out.
-/

namespace Dtnme.Ltp
open Library

/-- The ways in which extraction goes wrong: bytes are written outside the scratch buffer or
read from it before they were written, or a service id that does not decode is used. -/
inductive ExtractFault
  | overrun
  | stale
  | undecoded
  | noReturn
  deriving DecidableEq, Repr

/-- What `BundleProtocol::consume` leaves: the bundle, the number of bytes it took, and whether
the bundle is complete. -/
structure Consumed (σ : Type*) where
  bundle : σ
  used : ℕ
  complete : Bool

/-- Why the loop over the bytes of a segment ended. -/
inductive Stop
  | exhausted
  | needMore
  | badService
  | protocolError
  deriving DecidableEq, Repr

/-- The loop variables when it ends: `left` are the `buf_len` bytes at `buf_ptr`. -/
structure Parsed (σ : Type*) where
  bundle : Option σ
  left : List UInt8
  extracted : List σ
  stop : Stop

variable {σ : Type*}

/-- The bundle in progress and the bytes after the service id, when a bundle starts; nothing
for another service id. -/
def beginBundle (fresh : σ) (multiBundle : Bool) (bundle : Option σ) (data : List UInt8) :
    Except ExtractFault (Option (σ × List UInt8)) :=
  match bundle with
  | some b => .ok (some (b, data))
  | none =>
    if multiBundle then
      match (Bundling.decode32 (Bundling.memOf data 0) 0 data.length).result with
      | none => .error .undecoded
      | some (service, used) =>
        if service = 1 then .ok (some (fresh, data.drop used)) else .ok none
    else .ok (some (fresh, data))

/-- The loop over the bytes of a segment; no bundle means a protocol error. -/
def parseLoop (consume : σ → List UInt8 → Option (Consumed σ)) (fresh : σ) (multiBundle : Bool) :
    ℕ → Option σ → List UInt8 → List σ → Except ExtractFault (Parsed σ)
  | _, bundle, [], out => .ok ⟨bundle, [], out, .exhausted⟩
  | 0, _, _ :: _, _ => .error .noReturn
  | fuel + 1, bundle, byte :: data, out => do
    match ← beginBundle fresh multiBundle bundle (byte :: data) with
    | none => .ok ⟨none, byte :: data, out, .badService⟩
    | some (b, rest) =>
      match consume b rest with
      | none => .ok ⟨some b, rest, out, .protocolError⟩
      | some r =>
        if r.used = 0 then .ok ⟨some r.bundle, rest, out, .needMore⟩
        else if r.complete then
          parseLoop consume fresh multiBundle fuel none (rest.drop r.used) (out ++ [r.bundle])
        else parseLoop consume fresh multiBundle fuel (some r.bundle) (rest.drop r.used) out

/-- The variables of `extract_bundles_from_data` between two segments. `copied` says that the
bytes that are left stand at the start of the scratch buffer. -/
structure Extraction (σ : Type*) where
  bundle : Option σ := none
  left : List UInt8 := []
  copied : Bool := false
  tmpBufSize : ℕ := 0
  newTmpBufSize : ℕ := 0
  extracted : List σ := []
  aborted : Bool := false

/-- The segment behind what is left of the one before, in the scratch buffer. -/
def Extraction.load (x : Extraction σ) (payload : List UInt8) :
    Except ExtractFault (List UInt8 × Extraction σ) :=
  if x.left = [] then .ok (payload, x)
  else if !x.copied then .error .stale
  else
    let newTmpBufSize := x.left.length + payload.length
    let tmpBufSize := if x.tmpBufSize < newTmpBufSize then newTmpBufSize + 8 else x.tmpBufSize
    if tmpBufSize < newTmpBufSize then .error .overrun
    else .ok (x.left ++ payload,
      { x with newTmpBufSize := newTmpBufSize, tmpBufSize := tmpBufSize })

/-- What is left goes to the scratch buffer. Where it does not fit, the buffer gets its new size
from `new_tmp_buf_size`. -/
def Extraction.keep (x : Extraction σ) (r : Parsed σ) : Except ExtractFault (Extraction σ) :=
  let x := { x with bundle := r.bundle, left := r.left, extracted := r.extracted, copied := false }
  match r.stop with
  | .needMore =>
    let tmpBufSize := if x.tmpBufSize < r.left.length then x.newTmpBufSize + 8 else x.tmpBufSize
    if tmpBufSize < r.left.length then .error .overrun
    else .ok { x with copied := true, tmpBufSize := tmpBufSize }
  | .protocolError => .ok { x with aborted := true }
  | _ => .ok x

/-- One segment of `extract_bundles_from_data`. -/
def extractStep (consume : σ → List UInt8 → Option (Consumed σ)) (fresh : σ) (multiBundle : Bool)
    (x : Extraction σ) (payload : List UInt8) : Except ExtractFault (Extraction σ) := do
  if x.aborted then .ok x
  else
    let (data, x) ← x.load payload
    let r ← parseLoop consume fresh multiBundle data.length x.bundle data x.extracted
    x.keep r

/-! ## The assumption on `consume` -/

/-- A wire image behind its service id. -/
def serviceFrame (multiBundle : Bool) (wire : List UInt8) : List UInt8 :=
  if multiBundle then 1 :: wire else wire

/-- `consume` takes the bytes of a wire image as they come: it takes none when it needs more,
but some when it has the rest; `Rep` are the states in which it has taken a number of them, and
the bundle it completes is that of the image, whatever the chunks. -/
structure Consumes (consume : σ → List UInt8 → Option (Consumed σ)) (fresh : σ)
    (Rep : List UInt8 → ℕ → σ → Prop) (parsed : List UInt8 → σ) (wire : List UInt8) : Prop where
  nonempty : wire ≠ []
  start : Rep wire 0 fresh
  step : ∀ k b data, Rep wire k b → k < wire.length →
    (data <+: wire.drop k ∨ wire.drop k <+: data) →
    ∃ r, consume b data = some r ∧ r.used ≤ data.length ∧ k + r.used ≤ wire.length ∧
      (r.complete = true ↔ k + r.used = wire.length) ∧
      (r.complete = true → r.bundle = parsed wire) ∧
      (r.complete = false → Rep wire (k + r.used) r.bundle) ∧
      (wire.drop k <+: data → 0 < r.used)

variable {consume : σ → List UInt8 → Option (Consumed σ)} {fresh : σ}
  {Rep : List UInt8 → ℕ → σ → Prop} {parsed : List UInt8 → σ} {multi : Bool}
  {bundle : Option σ} {wires : List (List UInt8)} {data future : List UInt8}

/-- A stream that starts inside the first wire image, or before its service id. -/
def Reads (Rep : List UInt8 → ℕ → σ → Prop) (multi : Bool) :
    Option σ → List (List UInt8) → List UInt8 → Prop
  | none, wires, stream => stream = wires.flatMap (serviceFrame multi)
  | some _, [], _ => False
  | some b, w :: wires, stream =>
    ∃ k, Rep w k b ∧ k < w.length ∧ stream = w.drop k ++ wires.flatMap (serviceFrame multi)

/-- The same between two segments: what is left is too short to end its image. -/
def Awaits (Rep : List UInt8 → ℕ → σ → Prop) (multi : Bool) :
    Option σ → List (List UInt8) → List UInt8 → List UInt8 → Prop
  | none, wires, left, future => left = [] ∧ future = wires.flatMap (serviceFrame multi)
  | some _, [], _, _ => False
  | some b, w :: wires, left, future =>
    ∃ k, Rep w k b ∧ k + left.length < w.length ∧
      left ++ future = w.drop k ++ wires.flatMap (serviceFrame multi)

theorem Awaits.reads {left : List UInt8} (h : Awaits Rep multi bundle wires left future) :
    Reads Rep multi bundle wires (left ++ future) := by
  cases bundle with
  | none =>
    obtain ⟨rfl, hfuture⟩ := h
    exact hfuture
  | some b =>
    cases wires with
    | nil => exact h
    | cons w wires =>
      obtain ⟨k, hrep, hk, hstream⟩ := h
      exact ⟨k, hrep, by omega, hstream⟩

/-! ## The bytes of one segment -/

theorem decode32_one (rest : List UInt8) :
    (Bundling.decode32 (Bundling.memOf (1 :: rest) 0) 0 (1 :: rest).length).result =
      some (1, 1) := by
  simp [Bundling.decode32, Bundling.decode, Bundling.decodeLoop, Bundling.memOf, Bundling.maxLength,
    u64]

/-- A bundle is in progress, or one starts with the first image. -/
theorem beginBundle_reads (hw : ∀ w ∈ wires, Consumes consume fresh Rep parsed w)
    (h : Reads Rep multi bundle wires (data ++ future)) (hne : data ≠ []) :
    ∃ b rest w tail k, beginBundle fresh multi bundle data = .ok (some (b, rest)) ∧
      wires = w :: tail ∧ Rep w k b ∧ k < w.length ∧ rest.length ≤ data.length ∧
      rest ++ future = w.drop k ++ tail.flatMap (serviceFrame multi) := by
  cases bundle with
  | some b =>
    cases wires with
    | nil => exact absurd h id
    | cons w tail =>
      obtain ⟨k, hrep, hk, hstream⟩ := h
      exact ⟨b, data, w, tail, k, rfl, rfl, hrep, hk, le_rfl, hstream⟩
  | none =>
    obtain ⟨byte, d, rfl⟩ := List.exists_cons_of_ne_nil hne
    cases wires with
    | nil => simp [Reads] at h
    | cons w tail =>
      have hcons := hw w List.mem_cons_self
      have hpos := List.length_pos_iff.mpr hcons.nonempty
      cases multi with
      | false =>
        exact ⟨fresh, byte :: d, w, tail, 0, rfl, rfl, hcons.start, hpos, le_rfl, h⟩
      | true =>
        have hstream : byte = 1 ∧ d ++ future = w ++ tail.flatMap (serviceFrame true) := by
          simpa [Reads, serviceFrame] using h
        obtain ⟨rfl, hrest⟩ := hstream
        refine ⟨fresh, d, w, tail, 0, ?_, rfl, hcons.start, hpos, by simp, hrest⟩
        simp only [beginBundle, if_true]
        rw [decode32_one]
        rfl

theorem parseLoop_nil (fuel : ℕ) (bundle : Option σ) (out : List σ) :
    parseLoop consume fresh multi fuel bundle [] out = .ok ⟨bundle, [], out, .exhausted⟩ := by
  cases fuel <;> rfl

/-- Nothing left is too little to end an image. -/
theorem Reads.awaits (h : Reads Rep multi bundle wires future) :
    Awaits Rep multi bundle wires [] future := by
  cases bundle with
  | none => exact ⟨rfl, h⟩
  | some b =>
    cases wires with
    | nil => exact h
    | cons w wires =>
      obtain ⟨k, hrep, hk, hstream⟩ := h
      exact ⟨k, hrep, hk, hstream⟩

/-- The stream after `consume` took some bytes of an image. -/
theorem drop_stream {w rest tail : List UInt8} {k n : ℕ}
    (h : rest ++ future = w.drop k ++ tail) (hn : n ≤ rest.length) (hk : k + n ≤ w.length) :
    rest.drop n ++ future = w.drop (k + n) ++ tail := by
  have hdrop := congrArg (List.drop n) h
  rwa [List.drop_append_of_le_length hn,
    List.drop_append_of_le_length (by rw [List.length_drop]; omega), List.drop_drop] at hdrop

/-- The loop takes whole images as long as it can and leaves too little for the next step. -/
theorem parseLoop_reads {fuel : ℕ} (out : List σ)
    (hw : ∀ w ∈ wires, Consumes consume fresh Rep parsed w)
    (h : Reads Rep multi bundle wires (data ++ future)) (hfuel : data.length ≤ fuel) :
    ∃ r done rest, parseLoop consume fresh multi fuel bundle data out = .ok r ∧
      wires = done ++ rest ∧ r.extracted = out ++ done.map parsed ∧
      Awaits Rep multi r.bundle rest r.left future ∧ r.left.length ≤ data.length ∧
      ((r.stop = .exhausted ∧ r.left = []) ∨ r.stop = .needMore) := by
  induction fuel generalizing bundle wires data out with
  | zero =>
    obtain rfl := List.eq_nil_of_length_eq_zero (Nat.le_zero.mp hfuel)
    exact ⟨_, [], wires, parseLoop_nil 0 bundle out, rfl, by simp, h.awaits, le_rfl,
      Or.inl ⟨rfl, rfl⟩⟩
  | succ fuel ih =>
    cases data with
    | nil =>
      exact ⟨_, [], wires, parseLoop_nil _ bundle out, rfl, by simp, h.awaits, le_rfl,
        Or.inl ⟨rfl, rfl⟩⟩
    | cons byte data =>
      obtain ⟨b, rest, w, tail, k, hbegin, rfl, hrep, hk, hlen, hstream⟩ :=
        beginBundle_reads hw h (by simp)
      have hwtail : ∀ v ∈ tail, Consumes consume fresh Rep parsed v := fun v hv =>
        hw v (List.mem_cons_of_mem _ hv)
      have hprefix : rest <+: w.drop k ∨ w.drop k <+: rest :=
        List.prefix_or_prefix_of_prefix (List.prefix_append rest future)
          (hstream ▸ List.prefix_append (w.drop k) _)
      obtain ⟨r, hr, hused, hle, hcomplete, hparsed, hrep', hprogress⟩ :=
        (hw w List.mem_cons_self).step k b rest hrep hk hprefix
      rw [parseLoop, hbegin]
      simp only [bind, Except.bind, hr]
      by_cases hzero : r.used = 0
      · -- the loop ends within the image
        rw [if_pos hzero]
        have hopen : r.complete = false := by
          rw [Bool.eq_false_iff, ne_eq, hcomplete]
          omega
        have hshort : rest.length < w.length - k := by
          rcases hprefix with hpre | hpre
          · rw [← List.length_drop]
            refine lt_of_le_of_ne hpre.length_le fun heq => ?_
            have hsame := hpre.eq_of_length heq
            exact absurd (hprogress (hsame ▸ List.prefix_rfl)) (by omega)
          · exact absurd (hprogress hpre) (by omega)
        have hbelow : k + rest.length < w.length := by omega
        refine ⟨_, [], w :: tail, rfl, rfl, by simp, ⟨k, ?_, hbelow, hstream⟩, hlen, Or.inr rfl⟩
        simpa [hzero] using hrep' hopen
      · rw [if_neg hzero]
        have hnext := drop_stream hstream hused hle
        have hfuel' : (rest.drop r.used).length ≤ fuel := by
          rw [List.length_drop]
          simp only [List.length_cons] at hfuel hlen
          omega
        have hshorter : (rest.drop r.used).length ≤ (byte :: data).length := by
          rw [List.length_drop]
          omega
        cases hc : r.complete with
        | true =>
          rw [hcomplete.mp hc, List.drop_length, List.nil_append] at hnext
          obtain ⟨r', done, left, hloop, rfl, hout, hawaits, hleft, hstop⟩ :=
            ih (out ++ [r.bundle]) hwtail (show Reads Rep multi none tail _ from hnext) hfuel'
          refine ⟨r', w :: done, left, by simpa using hloop, rfl, ?_, hawaits,
            hleft.trans hshorter, hstop⟩
          rw [hout, hparsed hc]
          simp
        | false =>
          have hk' : k + r.used < w.length :=
            lt_of_le_of_ne hle fun heq => by simp [hcomplete.mpr heq] at hc
          have hreads : Reads Rep multi (some r.bundle) (w :: tail) (rest.drop r.used ++ future) :=
            ⟨k + r.used, hrep' hc, hk', hnext⟩
          obtain ⟨r', done, left, hloop, heq, hout, hawaits, hleft, hstop⟩ :=
            ih out hw hreads hfuel'
          exact ⟨r', done, left, by simpa using hloop, heq, hout, hawaits, hleft.trans hshorter,
            hstop⟩

/-! ## One segment -/

/-- How many bytes the loop over a segment leaves for the scratch buffer. -/
def leftOver (consume : σ → List UInt8 → Option (Consumed σ)) (fresh : σ) (multiBundle : Bool)
    (x : Extraction σ) (payload : List UInt8) : ℕ :=
  match parseLoop consume fresh multiBundle payload.length x.bundle payload x.extracted with
  | .ok r => if r.stop = .needMore then r.left.length else 0
  | .error _ => 0

/-- What is left of a segment that was read in place fits the scratch buffer: it is no longer
than the buffer, or than eight more than the last two pieces that were put together. -/
def LeftOverFits (consume : σ → List UInt8 → Option (Consumed σ)) (fresh : σ) (multiBundle : Bool)
    (x : Extraction σ) (payload : List UInt8) : Prop :=
  x.left = [] →
    leftOver consume fresh multiBundle x payload ≤ max x.tmpBufSize (x.newTmpBufSize + 8)

instance (x : Extraction σ) (payload : List UInt8) :
    Decidable (LeftOverFits consume fresh multi x payload) := by
  unfold LeftOverFits
  infer_instance

/-- The state between two segments: what is left is too short to end its image and stands in the
scratch buffer. -/
structure CarriesOver (Rep : List UInt8 → ℕ → σ → Prop) (multi : Bool) (x : Extraction σ)
    (wires : List (List UInt8)) (future : List UInt8) : Prop where
  live : x.aborted = false
  awaits : Awaits Rep multi x.bundle wires x.left future
  copied : x.left ≠ [] → x.copied = true

variable {x y : Extraction σ} {payload : List UInt8}

/-- Putting the two pieces together never overruns the scratch buffer. -/
theorem load_eq (payload : List UInt8) (h : x.left ≠ [] → x.copied = true) :
    ∃ y, x.load payload = .ok (x.left ++ payload, y) ∧ y.bundle = x.bundle ∧
      y.extracted = x.extracted ∧ y.aborted = x.aborted ∧
      (x.left = [] → y = x) ∧ (x.left ≠ [] → (x.left ++ payload).length ≤ y.tmpBufSize) := by
  unfold Extraction.load
  by_cases hleft : x.left = []
  · rw [if_pos hleft, hleft, List.nil_append]
    exact ⟨x, rfl, rfl, rfl, rfl, fun _ => rfl, fun hne => absurd rfl hne⟩
  · have hroom : ¬ (if x.tmpBufSize < x.left.length + payload.length then
        x.left.length + payload.length + 8 else x.tmpBufSize) < x.left.length + payload.length := by
      split_ifs <;> omega
    rw [if_neg hleft, if_neg (by simp [h hleft])]
    simp only [hroom, if_false]
    refine ⟨_, rfl, rfl, rfl, rfl, fun hnil => absurd hnil hleft, fun _ => ?_⟩
    simpa using hroom

/-- A segment is taken with its images, unless what is left of it does not fit. -/
theorem extractStep_carries (hw : ∀ w ∈ wires, Consumes consume fresh Rep parsed w)
    (h : CarriesOver Rep multi x wires (payload ++ future)) :
    ∃ done rest, wires = done ++ rest ∧
      (LeftOverFits consume fresh multi x payload →
        ∃ y, extractStep consume fresh multi x payload = .ok y ∧
          y.extracted = x.extracted ++ done.map parsed ∧ CarriesOver Rep multi y rest future) ∧
      (¬ LeftOverFits consume fresh multi x payload →
        extractStep consume fresh multi x payload = .error .overrun) := by
  obtain ⟨z, hload, hbundle, hout, hlive, hsame, hroom⟩ := load_eq payload h.copied
  have hreads := h.awaits.reads
  rw [← List.append_assoc] at hreads
  obtain ⟨r, done, rest, hloop, rfl, hextracted, hawaits, hlen, hstop⟩ :=
    parseLoop_reads x.extracted hw hreads le_rfl
  have hstep : extractStep consume fresh multi x payload = z.keep r := by
    rw [extractStep, if_neg (by simp [h.live]), hload]
    simp only [bind, Except.bind, hbundle, hout, hloop]
  have hleft : x.left = [] → leftOver consume fresh multi x payload =
      if r.stop = .needMore then r.left.length else 0 := by
    intro hnil
    rw [hnil, List.nil_append] at hloop
    simp only [leftOver, hloop]
  refine ⟨done, rest, rfl, fun hfits => ?_, fun hfits => ?_⟩
  · rw [hstep]
    rcases hstop with ⟨hstop, hnil⟩ | hstop
    · rw [Extraction.keep, hstop]
      refine ⟨_, rfl, hextracted, hlive.trans h.live, hawaits, fun hne => absurd hnil hne⟩
    · have hsize : ¬ (if z.tmpBufSize < r.left.length then z.newTmpBufSize + 8 else z.tmpBufSize) <
          r.left.length := by
        by_cases hnil : x.left = []
        · have hle := hfits hnil
          rw [hleft hnil, if_pos hstop] at hle
          rw [hsame hnil]
          split_ifs <;> omega
        · have := hroom hnil
          split_ifs <;> omega
      rw [Extraction.keep, hstop]
      simp only [hsize, if_false]
      exact ⟨_, rfl, hextracted, hlive.trans h.live, hawaits, fun _ => rfl⟩
  · have hnil : x.left = [] := by_contra fun hne => hfits fun hnil => absurd hnil hne
    have hlong : ¬ leftOver consume fresh multi x payload ≤
        max x.tmpBufSize (x.newTmpBufSize + 8) := fun hle => hfits fun _ => hle
    rw [hleft hnil] at hlong
    have hmore : r.stop = .needMore := by
      by_contra hne
      rw [if_neg hne] at hlong
      omega
    rw [if_pos hmore] at hlong
    rw [hstep, hsame hnil, Extraction.keep, hmore]
    have hsize : (if x.tmpBufSize < r.left.length then x.newTmpBufSize + 8 else x.tmpBufSize) <
        r.left.length := by
      split_ifs <;> omega
    simp only [hsize, if_true]

/-! ## All segments -/

/-- After the last segment nothing is missing. -/
theorem Awaits.nil {left : List UInt8} (hw : ∀ w ∈ wires, w ≠ [])
    (h : Awaits Rep multi bundle wires left []) : wires = [] := by
  cases bundle with
  | none =>
    cases wires with
    | nil => rfl
    | cons w wires =>
      have hempty := h.2
      have hne := hw w List.mem_cons_self
      unfold serviceFrame at hempty
      cases multi <;> simp [hne] at hempty
  | some b =>
    cases wires with
    | nil => exact absurd h id
    | cons w wires =>
      obtain ⟨k, -, hk, hstream⟩ := h
      have hlength := congrArg List.length hstream
      simp only [List.append_nil, List.length_append, List.length_drop] at hlength
      omega

theorem extract_run_iff {segments : List (List UInt8)}
    (hw : ∀ w ∈ wires, Consumes consume fresh Rep parsed w)
    (h : CarriesOver Rep multi x wires segments.flatten) :
    (∃ y, run (extractStep consume fresh multi) x segments = .ok y ∧
        y.extracted = x.extracted ++ wires.map parsed) ↔
      Meets (extractStep consume fresh multi) (LeftOverFits consume fresh multi) x segments := by
  induction segments generalizing x wires with
  | nil =>
    obtain rfl := h.awaits.nil fun w hmem => (hw w hmem).nonempty
    simp [run, Meets]
  | cons payload segments ih =>
    rw [List.flatten_cons] at h
    obtain ⟨done, rest, rfl, hfits, hoverrun⟩ := extractStep_carries hw h
    rw [run, Meets]
    by_cases hfit : LeftOverFits consume fresh multi x payload
    · obtain ⟨y, hy, hout, hcarries⟩ := hfits hfit
      have hrest := ih (fun w hmem => hw w (List.mem_append_right _ hmem)) hcarries
      rw [hout] at hrest
      simpa [hy, hfit] using hrest
    · simp [hoverrun hfit, hfit]

/-- However the stream of bundles is cut into segments, the bundles are extracted and the scratch
buffer is not overrun exactly if what is left of each segment fits. -/
theorem extractBundles_iff {σ : Type*} (consume : σ → List UInt8 → Option (Consumed σ)) (fresh : σ)
    (Rep : List UInt8 → ℕ → σ → Prop) (parsed : List UInt8 → σ) (multiBundle : Bool)
    (wires segments : List (List UInt8))
    (hw : ∀ w ∈ wires, Consumes consume fresh Rep parsed w)
    (hcut : segments.flatten = wires.flatMap (serviceFrame multiBundle)) :
    (∃ x, run (extractStep consume fresh multiBundle) {} segments = .ok x ∧
        x.extracted = wires.map parsed) ↔
      Meets (extractStep consume fresh multiBundle) (LeftOverFits consume fresh multiBundle) {}
        segments := by
  have hstart : CarriesOver Rep multiBundle ({} : Extraction σ) wires segments.flatten :=
    ⟨rfl, ⟨rfl, hcut⟩, fun hne => absurd rfl hne⟩
  simpa using extract_run_iff hw hstart

/-! ## A nine-byte array header -/

/-- A parser that knows where the blocks of an image of `total` bytes start, and how many bytes it
needs there to see the type of the block; it takes what it is given up to a block whose type it
cannot see. The state is the number of bytes taken. -/
def blockConsume (blocks : List (ℕ × ℕ)) (total k : ℕ) (data : List UInt8) : Option (Consumed ℕ) :=
  let stop := match blocks.find? fun b => k ≤ b.1 && k + data.length < b.1 + b.2 with
    | some b => b.1
    | none => total
  let used := min data.length (stop - k)
  some ⟨k + used, used, decide (k + used = total)⟩

theorem blockConsume_consumes {blocks : List (ℕ × ℕ)} {wire : List UInt8} (hne : wire ≠ [])
    (hblocks : ∀ b ∈ blocks, b.1 + b.2 ≤ wire.length) :
    Consumes (blockConsume blocks wire.length) 0 (fun _ k b => b = k) (fun w => w.length) wire where
  nonempty := hne
  start := rfl
  step k b data hb hk _ := by
    subst hb
    refine ⟨_, rfl, min_le_left _ _, ?_, by simp, fun hc => by simpa using hc, fun _ => rfl, ?_⟩
    · have hstop : (match blocks.find? fun c => b ≤ c.1 && b + data.length < c.1 + c.2 with
          | some c => c.1
          | none => wire.length) ≤ wire.length := by
        split
        · next c hc =>
          have := hblocks c (List.mem_of_find?_eq_some hc)
          omega
        · exact le_rfl
      simp only
      omega
    · intro hpre
      have hlen := hpre.length_le
      rw [List.length_drop] at hlen
      have hnone : (blocks.find? fun c => b ≤ c.1 && b + data.length < c.1 + c.2) = none := by
        rw [List.find?_eq_none]
        intro c hc
        have := hblocks c hc
        simp only [Bool.and_eq_true, decide_eq_true_eq, not_and, not_lt]
        omega
      simp only [hnone]
      omega

/-- A version 7 bundle: the primary block, a bundle age block whose array header takes nine bytes,
and the payload block. -/
def ageBundle : List UInt8 :=
  [0x9f, 0x88, 7, 4, 0, 0x82, 2, 0x82, 2, 1, 0x82, 2, 0x82, 1, 1, 0x82, 1, 0, 0x82, 1, 0, 0x18, 100,
    0x9b, 0, 0, 0, 0, 0, 0, 0, 5, 7, 2, 0, 0, 0x41, 5,
    0x85, 1, 1, 0, 0, 0x43, 10, 11, 12, 0xff]

/-- The age block starts at 23, with its type in the tenth byte, the payload block at 38. -/
def ageBlocks : List (ℕ × ℕ) := [(23, 10), (38, 2)]

theorem ageBundle_consumes : Consumes (blockConsume ageBlocks 48) 0 (fun _ k b => b = k)
    (fun w => w.length) ageBundle := by
  have hne : ageBundle ≠ [] := by decide
  exact blockConsume_consumes hne (by decide)

/-- Eight bytes of the header are left of the first segment. -/
theorem extractBundles_iff_ageBundle :
    (∃ x, run (extractStep (blockConsume ageBlocks 48) 0 false) {}
        [ageBundle.take 31, ageBundle.drop 31] = .ok x ∧ x.extracted = [48]) ↔
      Meets (extractStep (blockConsume ageBlocks 48) 0 false)
        (LeftOverFits (blockConsume ageBlocks 48) 0 false) {}
        [ageBundle.take 31, ageBundle.drop 31] :=
  extractBundles_iff (blockConsume ageBlocks 48) 0 (fun _ k b => b = k) (fun w => w.length) false
    [ageBundle] [ageBundle.take 31, ageBundle.drop 31] (by simpa using ageBundle_consumes) (by decide)

/-- Nine bytes are left, for which the scratch buffer gets eight. -/
theorem extractBundles_overrun :
    ¬ ∀ (consume : ℕ → List UInt8 → Option (Consumed ℕ)) (fresh : ℕ)
      (Rep : List UInt8 → ℕ → ℕ → Prop) (parsed : List UInt8 → ℕ) (multiBundle : Bool)
      (wires segments : List (List UInt8)),
      (∀ w ∈ wires, Consumes consume fresh Rep parsed w) → (∀ s ∈ segments, s ≠ []) →
      segments.flatten = wires.flatMap (serviceFrame multiBundle) →
      ∃ x, run (extractStep consume fresh multiBundle) {} segments = .ok x ∧
        x.extracted = wires.map parsed := by
  intro hall
  obtain ⟨x, hx, -⟩ := hall (blockConsume ageBlocks 48) 0 (fun _ k b => b = k) (fun w => w.length)
    false [ageBundle] [ageBundle.take 32, ageBundle.drop 32] (by simpa using ageBundle_consumes)
    (by decide) (by decide)
  have hfault : run (extractStep (blockConsume ageBlocks 48) 0 false) {}
      [ageBundle.take 32, ageBundle.drop 32] = .error .overrun := by decide +kernel
  rw [hfault] at hx
  cases hx

end Dtnme.Ltp
