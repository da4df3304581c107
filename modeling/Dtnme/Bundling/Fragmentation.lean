import Dtnme.Bundling.CborUtil
import Dtnme.Bundling.Reassembly
import Dtnme.Bundling.Sdnv

/-! # Proactive fragmentation

`proactively_fragment_bp6` and `proactively_fragment_bp7` cut a payload into fragments that
fit a link. Each first sums up what the blocks of the first and of the last fragment take,
and gives up if that leaves no room. The room of a single fragment is computed again when
it is made, by subtractions in `size_t`. The lengths that are summed up are those of
buffers in memory.
-/

namespace Dtnme.Bundling
open Library

/-! ## Making one fragment -/

/-- The length of the payload that a bundle has or is a fragment of. -/
def Bundle.wholeLength (b : Bundle) : ℕ := if b.isFragment then b.origLength else b.payload.length

/-- The offset of a bundle in that payload. -/
def Bundle.ownOffset (b : Bundle) : ℕ := if b.isFragment then b.fragOffset else 0

/-- A block that goes into a fragment. -/
def inFragment (first last foundPayload : Bool) (b : BlockInfo) : Bool :=
  b.type = .primary || b.type = .payload || (!foundPayload && first) || (foundPayload && last) ||
    b.source.isNone || b.blockFlags.testBit 0

/-- The blocks of a fragment. -/
def selectBlocks (first last : Bool) : Bool → List BlockInfo → List BlockInfo
  | _, [] => []
  | foundPayload, b :: blocks =>
    if inFragment first last foundPayload b then
      b :: selectBlocks first last (foundPayload || b.type = .payload) blocks
    else selectBlocks first last foundPayload blocks

/-- What is subtracted for the blocks. -/
def blockLens (blocks : List BlockInfo) : List ℕ :=
  (blocks.filter (fun b => b.type ≠ .payload)).map (fun b => b.contents.length)

/-- A bundle to cut up. The blocks are those of the link; `fields` are the subtractions for the
fields that the primary block of a fragment at an offset has in addition. -/
structure FragmentRequest where
  bundle : Bundle
  xmitBlocks : List BlockInfo
  maxLength : ℕ
  lastLen : ℕ
  fields : ℕ → List ℕ

namespace FragmentRequest
variable (r : FragmentRequest)

/-- The subtractions from the length of a fragment, in order. -/
def subtrahends (offset : ℕ) (first last : Bool) : List ℕ :=
  blockLens (selectBlocks first last false r.xmitBlocks) ++ r.fields offset ++ [12]

/-- The check for an overallocated length. -/
def clampLength (offset length : ℕ) (first : Bool) : ℕ :=
  if r.bundle.payload.length ≤ u64 (offset + length) then
    let rest := u64Sub r.bundle.payload.length offset
    if first then
      if rest % 2 = 0 then rest / 2 else rest / 2 + 1
    else rest
  else length

/-- `set_length` and `write_data` of a new payload. A length that passes the check only because
the sum wraps asks for a buffer that is not to be had. -/
def initPayload (src : List UInt8) (offset length : ℕ) : Except Fault (List UInt8) :=
  if u64 (offset + length) ≤ src.length then
    if offset + length ≤ src.length then .ok (slice src offset length) else .error .panic
  else .error .assertFailed

/-- `create_fragment_bp6` and `create_fragment_bp7`. -/
def createFragment (offset : ℕ) (first last : Bool) : Except Fault Bundle := do
  let length := (r.subtrahends offset first last).foldl u64Sub r.maxLength
  let length := r.clampLength offset length first
  let payload ← initPayload r.bundle.payload offset length
  .ok { r.bundle.copyMetadata with
        isFragment := true
        doNotFragment := false
        fragCreatedFromBundleid := r.bundle.bundleid
        origLength := r.bundle.wholeLength
        fragOffset := u64 (r.bundle.ownOffset + offset)
        fragLength := length
        payload := payload
        recvBlocks := (selectBlocks first last false r.xmitBlocks).filterMap
          fun b => b.source.bind fun i => r.bundle.recvBlocks[i]? }

variable {r} in
/-- A fragment that is made is a slice of the payload. -/
theorem createFragment_ok {offset : ℕ} {first last : Bool} {f : Bundle}
    (h : r.createFragment offset first last = .ok f) :
    ∃ length, length = r.clampLength offset
        ((r.subtrahends offset first last).foldl u64Sub r.maxLength) first ∧
      offset + length ≤ r.bundle.payload.length ∧
      f = { r.bundle.copyMetadata with
        isFragment := true
        doNotFragment := false
        fragCreatedFromBundleid := r.bundle.bundleid
        origLength := r.bundle.wholeLength
        fragOffset := u64 (r.bundle.ownOffset + offset)
        fragLength := length
        payload := slice r.bundle.payload offset length
        recvBlocks := (selectBlocks first last false r.xmitBlocks).filterMap
          fun b => b.source.bind fun i => r.bundle.recvBlocks[i]? } := by
  unfold createFragment initPayload at h
  simp only at h
  split_ifs at h with hwrap hfits
  · exact ⟨_, rfl, hfits, (Except.ok.inj h).symm⟩
  · cases h
  · cases h

/-! ## The loop -/

end FragmentRequest

/-- The variables of the loop. -/
structure CutState where
  offset : ℕ
  todo : ℕ
  first : Bool
  last : Bool
  deriving DecidableEq, Repr

/-- A fragment with the arguments it was made with. -/
structure Cut where
  offset : ℕ
  first : Bool
  last : Bool
  fragment : Bundle
  deriving DecidableEq, Repr

namespace FragmentRequest
variable (r : FragmentRequest)

/-- The variables before the loop. -/
def start : CutState := ⟨0, r.bundle.payload.length, true, false⟩

/-- `last` in an iteration. -/
def lastAt (s : CutState) : Bool :=
  s.last || (!s.first && decide (u64 (s.todo + r.lastLen) ≤ r.maxLength))

/-- One iteration. -/
def cutStep (s : CutState) : Except Fault (Cut × CutState) := do
  let last := r.lastAt s
  let fragment ← r.createFragment s.offset s.first last
  .ok (⟨s.offset, s.first, last, fragment⟩,
    { offset := u64 (s.offset + fragment.payload.length)
      todo := u64Sub s.todo fragment.payload.length
      first := false
      last := last })

/-- The `do` loop, which goes on while there is something to do. -/
def fragmentLoop : ℕ → CutState → Except Fault (List Cut)
  | 0, _ => .error .noReturn
  | fuel + 1, s => do
    let (cut, s') ← r.cutStep s
    if s'.todo = 0 then .ok [cut]
    else
      let cuts ← fragmentLoop fuel s'
      .ok (cut :: cuts)

end FragmentRequest

/-! ## The two versions -/

/-- What the blocks of the first and of the last fragment take. -/
def tally : Bool → List BlockInfo → ℕ × ℕ
  | _, [] => (0, 0)
  | foundPayload, b :: blocks =>
    if b.type = .primary then
      let (firstLen, lastLen) := tally foundPayload blocks
      (b.contents.length + firstLen, b.contents.length + lastLen)
    else if b.type = .payload then tally true blocks
    else if b.blockFlags.testBit 0 || b.source.isNone then
      let (firstLen, lastLen) := tally foundPayload blocks
      (b.contents.length + firstLen, b.contents.length + lastLen)
    else if foundPayload then
      let (firstLen, lastLen) := tally foundPayload blocks
      (firstLen, b.contents.length + lastLen)
    else
      let (firstLen, lastLen) := tally foundPayload blocks
      (b.contents.length + firstLen, lastLen)

/-- The fragment state of a bundle: a new one, or the one in the table. -/
def FragmentManager.fragmentState (m : FragmentManager) (bundle : Bundle) : Option FragmentState :=
  if bundle.isFragment then m.fragmentTable.find? bundle.hashKey else some { bundle := bundle }

/-- `add_fragment` for each of the fragments. -/
def FragmentState.addFragments (s : FragmentState) (cuts : List Cut) : FragmentState :=
  { s with fragments := cuts.foldl (fun l c => insertSorted c.fragment l) s.fragments }

/-- The state goes into the table under the key of the last fragment. -/
def FragmentManager.putState (m : FragmentManager) (cuts : List Cut) (s : FragmentState) :
    FragmentManager :=
  match cuts.getLast? with
  | some cut => { m with fragmentTable := m.fragmentTable.insert cut.fragment.hashKey s }
  | none => m

/-- The loop, with the fragments added to the state and the state put into the table. -/
def FragmentManager.fragment (m : FragmentManager) (r : FragmentRequest) (fuel : ℕ) :
    Except Fault (Option (List Cut) × FragmentManager) :=
  match m.fragmentState r.bundle with
  | none => .error .undefined
  | some state => do
    let cuts ← r.fragmentLoop fuel r.start
    .ok (some cuts, m.putState cuts (state.addFragments cuts))

/-- What the additional fields of version 7 take. -/
def fieldsBp7 (bundle : Bundle) : ℕ :=
  if bundle.isFragment then uint64EncodingLen bundle.origLength
  else uint64EncodingLen bundle.payload.length * 2

def requestBp7 (bundle : Bundle) (xmitBlocks : List BlockInfo) (maxLength : ℕ) : FragmentRequest :=
  { bundle, xmitBlocks, maxLength
    lastLen := 2 + (tally false xmitBlocks).2 + (fieldsBp7 bundle + 12)
    fields := fun _ => [fieldsBp7 bundle] }

/-- `proactively_fragment_bp7`. -/
def proactivelyFragmentBp7 (m : FragmentManager) (bundle : Bundle) (xmitBlocks : List BlockInfo)
    (maxLength fuel : ℕ) : Except Fault (Option (List Cut) × FragmentManager) :=
  if bundle.payload.length ≤ 1 then .ok (none, m)
  else if maxLength ≤ 2 + (tally false xmitBlocks).1 + (fieldsBp7 bundle + 12) ∨
      maxLength ≤ 2 + (tally false xmitBlocks).2 + (fieldsBp7 bundle + 12) then .ok (none, m)
  else m.fragment (requestBp7 bundle xmitBlocks maxLength) fuel

/-- What the fields of version 6 are estimated at. -/
def fieldsBp6 (bundle : Bundle) : ℕ :=
  if bundle.isFragment then encodingLen bundle.origLength
  else encodingLen (u64 (bundle.payload.length * 2))

/-- The subtractions of `create_fragment_bp6` for the fields. -/
def subtractedBp6 (bundle : Bundle) (offset : ℕ) : List ℕ :=
  if bundle.isFragment then
    [u64Sub (encodingLen (u64 (bundle.fragOffset + offset)))
      (encodingLen bundle.fragOffset)]
  else [encodingLen bundle.payload.length, encodingLen offset]

/-- The length is reduced by ten after the check. -/
def requestBp6 (bundle : Bundle) (xmitBlocks : List BlockInfo) (maxLength : ℕ) : FragmentRequest :=
  { bundle, xmitBlocks
    maxLength := if 10 < maxLength then maxLength - 10 else maxLength
    lastLen := (tally false xmitBlocks).2 + (fieldsBp6 bundle + 12)
    fields := subtractedBp6 bundle }

/-- `proactively_fragment_bp6`. -/
def proactivelyFragmentBp6 (m : FragmentManager) (bundle : Bundle) (xmitBlocks : List BlockInfo)
    (maxLength fuel : ℕ) : Except Fault (Option (List Cut) × FragmentManager) :=
  if bundle.payload.length ≤ 1 then .ok (none, m)
  else if maxLength ≤ (tally false xmitBlocks).1 + (fieldsBp6 bundle + 12) ∨
      maxLength ≤ (tally false xmitBlocks).2 + (fieldsBp6 bundle + 12) then .ok (none, m)
  else m.fragment (requestBp6 bundle xmitBlocks maxLength) fuel

/-! ## One iteration -/

theorem foldl_u64Sub {l : List ℕ} {n : ℕ} (hn : n < 2 ^ 64) (h : l.sum ≤ n) :
    l.foldl u64Sub n = n - l.sum := by
  induction l generalizing n with
  | nil => simp
  | cons d l ih =>
    rw [List.sum_cons] at h
    rw [List.foldl_cons, List.sum_cons, u64Sub_of_le hn (by omega), ih (by omega) (by omega)]
    omega

/-- No subtraction in turn wraps. -/
def NoBorrow : ℕ → List ℕ → Prop
  | _, [] => True
  | n, d :: l => d ≤ n ∧ NoBorrow (n - d) l

theorem noBorrow_iff {n : ℕ} {l : List ℕ} : NoBorrow n l ↔ l.sum ≤ n := by
  induction l generalizing n with
  | nil => simp [NoBorrow]
  | cons d l ih =>
    rw [NoBorrow, ih, List.sum_cons]
    omega

/-- Fragments that are consecutive slices of the payload from `offset` to its end, each with its
place in the whole payload. -/
def Bundle.TilesFrom (bundle : Bundle) : ℕ → List Bundle → Prop
  | offset, [] => offset = bundle.payload.length
  | offset, f :: fragments =>
    f.payload = slice bundle.payload offset f.payload.length ∧
      f.fragOffset = u64 (bundle.ownOffset + offset) ∧ f.origLength = bundle.wholeLength ∧
      f.isFragment = true ∧ bundle.TilesFrom (offset + f.payload.length) fragments

/-- The payloads of the fragments, one after another. -/
theorem Bundle.TilesFrom.payload_eq {bundle : Bundle} {offset : ℕ} {fragments : List Bundle}
    (h : bundle.TilesFrom offset fragments) :
    fragments.flatMap Bundle.payload = bundle.payload.drop offset := by
  induction fragments generalizing offset with
  | nil =>
    rw [Bundle.TilesFrom] at h
    simp [h]
  | cons f fragments ih =>
    obtain ⟨hslice, -, -, -, htail⟩ := h
    rw [List.flatMap_cons, ih htail, ← List.drop_drop]
    nth_rewrite 1 [hslice]
    exact List.take_append_drop _ _

namespace FragmentRequest
variable (r : FragmentRequest)

/-- What is taken off the length of a fragment. -/
def reserved (offset : ℕ) (first last : Bool) : ℕ := (r.subtrahends offset first last).sum

/-- The variables of the loop before an iteration that leaves room in the fragment: what is
reserved is less than the length, or all of it for the first fragment, and the end of the
fragment is within `size_t`. -/
def Roomy (s : CutState) : Prop :=
  (r.reserved s.offset s.first (r.lastAt s) < r.maxLength ∨
    s.first ∧ r.reserved s.offset s.first (r.lastAt s) = r.maxLength) ∧
  s.offset + (r.maxLength - r.reserved s.offset s.first (r.lastAt s)) < 2 ^ 64

/-- Between two iterations the payload is cut up to `offset`. -/
structure OnTrack (s : CutState) : Prop where
  sum_eq : s.offset + s.todo = r.bundle.payload.length
  todo_pos : 0 < s.todo
  first_offset : s.first → s.offset = 0
  first_last : s.first → s.last = false

/-- The sizes are those of a machine with 64-bit words. -/
structure Sized : Prop where
  payload_lt : r.bundle.payload.length < 2 ^ 64
  maxLength_lt : r.maxLength < 2 ^ 64

/-- The payload bytes of the fragment. -/
def cutLen (s : CutState) : ℕ :=
  let length := r.maxLength - r.reserved s.offset s.first (r.lastAt s)
  if r.bundle.payload.length ≤ s.offset + length then
    if s.first then (s.todo + 1) / 2 else s.todo
  else length

/-- The fragment an iteration makes. -/
def fragmentAt (s : CutState) : Bundle :=
  { r.bundle.copyMetadata with
    isFragment := true
    doNotFragment := false
    fragCreatedFromBundleid := r.bundle.bundleid
    origLength := r.bundle.wholeLength
    fragOffset := u64 (r.bundle.ownOffset + s.offset)
    fragLength := r.cutLen s
    payload := slice r.bundle.payload s.offset (r.cutLen s)
    recvBlocks := (selectBlocks s.first (r.lastAt s) false r.xmitBlocks).filterMap
      fun b => b.source.bind fun i => r.bundle.recvBlocks[i]? }

variable {r} {s : CutState}

theorem cutLen_le (ht : r.OnTrack s) : r.cutLen s ≤ s.todo := by
  have hsum := ht.sum_eq
  unfold cutLen
  dsimp only
  split_ifs with hover hfirst
  · omega
  · exact le_rfl
  · omega

theorem cutLen_pos (ht : r.OnTrack s) (hr : r.reserved s.offset s.first (r.lastAt s) < r.maxLength) :
    0 < r.cutLen s := by
  have hpos := ht.todo_pos
  unfold cutLen
  dsimp only
  split_ifs with hover hfirst
  · omega
  · exact hpos
  · omega

/-- The first fragment does not take the whole payload. -/
theorem cutLen_lt (ht : r.OnTrack s) (hp : 2 ≤ r.bundle.payload.length) (hf : s.first) :
    r.cutLen s < s.todo := by
  have hsum := ht.sum_eq
  have hzero := ht.first_offset hf
  unfold cutLen
  dsimp only
  split_ifs with hover
  · omega
  · omega

theorem clampLength_eq (hz : r.Sized) (ht : r.OnTrack s)
    (hover : s.offset + (r.maxLength - r.reserved s.offset s.first (r.lastAt s)) < 2 ^ 64) :
    r.clampLength s.offset (r.maxLength - r.reserved s.offset s.first (r.lastAt s)) s.first =
      r.cutLen s := by
  have hsum := ht.sum_eq
  have hrest : u64Sub r.bundle.payload.length s.offset = s.todo := by
    rw [u64Sub_of_le hz.payload_lt (by omega)]
    omega
  unfold clampLength cutLen
  rw [u64_of_lt hover, hrest]
  dsimp only
  split_ifs <;> omega

theorem createFragment_eq (hz : r.Sized) (ht : r.OnTrack s)
    (hle : r.reserved s.offset s.first (r.lastAt s) ≤ r.maxLength)
    (hover : s.offset + (r.maxLength - r.reserved s.offset s.first (r.lastAt s)) < 2 ^ 64) :
    r.createFragment s.offset s.first (r.lastAt s) = .ok (r.fragmentAt s) := by
  have hsum := ht.sum_eq
  have hlen := cutLen_le ht
  have hsize := hz.payload_lt
  have hinit : initPayload r.bundle.payload s.offset (r.cutLen s) =
      .ok (slice r.bundle.payload s.offset (r.cutLen s)) := by
    unfold initPayload
    rw [u64_of_lt (by omega), if_pos (by omega), if_pos (by omega)]
  have hfold : (r.subtrahends s.offset s.first (r.lastAt s)).foldl u64Sub r.maxLength =
      r.maxLength - r.reserved s.offset s.first (r.lastAt s) := foldl_u64Sub hz.maxLength_lt hle
  unfold createFragment
  simp only [hfold, clampLength_eq hz ht hover, hinit, bind, Except.bind]
  rfl

/-- A sum that wraps is below the offset, so the length is not cut down. -/
theorem createFragment_wraps (hz : r.Sized) (ht : r.OnTrack s)
    (hle : r.reserved s.offset s.first (r.lastAt s) ≤ r.maxLength)
    (hover : 2 ^ 64 ≤ s.offset + (r.maxLength - r.reserved s.offset s.first (r.lastAt s))) :
    r.createFragment s.offset s.first (r.lastAt s) = .error .panic := by
  have hsum := ht.sum_eq
  have hpos := ht.todo_pos
  have hsize := hz.payload_lt
  have hmax := hz.maxLength_lt
  have hfold : (r.subtrahends s.offset s.first (r.lastAt s)).foldl u64Sub r.maxLength =
      r.maxLength - r.reserved s.offset s.first (r.lastAt s) := foldl_u64Sub hz.maxLength_lt hle
  set length := r.maxLength - r.reserved s.offset s.first (r.lastAt s) with hlength
  have hwrap : u64 (s.offset + length) = s.offset + length - 2 ^ 64 := by
    unfold u64
    omega
  have hclamp : r.clampLength s.offset length s.first = length := by
    unfold clampLength
    rw [hwrap, if_neg (by omega)]
  have hinit : initPayload r.bundle.payload s.offset length = .error .panic := by
    unfold initPayload
    rw [hwrap, if_pos (by omega), if_neg (by omega)]
  unfold createFragment
  simp only [hfold, hclamp, hinit, bind, Except.bind]

/-- The fragment with its arguments. -/
def cutAt (r : FragmentRequest) (s : CutState) : Cut :=
  ⟨s.offset, s.first, r.lastAt s, r.fragmentAt s⟩

/-- The variables after an iteration. -/
def next (r : FragmentRequest) (s : CutState) : CutState :=
  { offset := s.offset + r.cutLen s, todo := s.todo - r.cutLen s, first := false, last := r.lastAt s }

theorem length_fragmentAt (ht : r.OnTrack s) : (r.fragmentAt s).payload.length = r.cutLen s := by
  have hsum := ht.sum_eq
  have hlen := cutLen_le ht
  exact length_slice_of_le (by omega)

theorem cutStep_eq (hz : r.Sized) (ht : r.OnTrack s)
    (hle : r.reserved s.offset s.first (r.lastAt s) ≤ r.maxLength)
    (hover : s.offset + (r.maxLength - r.reserved s.offset s.first (r.lastAt s)) < 2 ^ 64) :
    r.cutStep s = .ok (r.cutAt s, r.next s) := by
  have hsum := ht.sum_eq
  have hlen := cutLen_le ht
  have hsize := hz.payload_lt
  unfold cutStep next cutAt
  simp only [createFragment_eq hz ht hle hover, bind, Except.bind, length_fragmentAt ht]
  rw [u64_of_lt (by omega), u64Sub_of_le (by omega) hlen]

theorem Roomy.reserved_le (h : r.Roomy s) :
    r.reserved s.offset s.first (r.lastAt s) ≤ r.maxLength :=
  h.1.elim le_of_lt fun h => h.2.le

theorem Roomy.cutStep_eq (h : r.Roomy s) (hz : r.Sized) (ht : r.OnTrack s) :
    r.cutStep s = .ok (r.cutAt s, r.next s) :=
  FragmentRequest.cutStep_eq hz ht h.reserved_le h.2

theorem OnTrack.next (ht : r.OnTrack s) (h : (r.next s).todo ≠ 0) : r.OnTrack (r.next s) where
  sum_eq := by
    have hsum := ht.sum_eq
    have hlen := cutLen_le ht
    change s.offset + r.cutLen s + (s.todo - r.cutLen s) = _
    omega
  todo_pos := Nat.pos_of_ne_zero h
  first_offset := by simp [FragmentRequest.next]
  first_last := by simp [FragmentRequest.next]

/-! ## The whole loop -/

theorem tilesFrom_cons {fragments : List Bundle} (ht : r.OnTrack s)
    (h : r.bundle.TilesFrom (s.offset + r.cutLen s) fragments) :
    r.bundle.TilesFrom s.offset (r.fragmentAt s :: fragments) := by
  have hl := length_fragmentAt ht
  refine ⟨?_, rfl, rfl, rfl, ?_⟩
  · rw [hl]
    rfl
  · rw [hl]
    exact h

/-- Variables before an iteration and before the next one. -/
def Steps (r : FragmentRequest) (s s' : CutState) : Prop :=
  ∃ cut, r.cutStep s = .ok (cut, s') ∧ s'.todo ≠ 0

/-- The iterations of the loop from `s` on. -/
def Visits (r : FragmentRequest) : CutState → CutState → Prop := Relation.ReflTransGen r.Steps

theorem fragmentLoop_tiles (hz : r.Sized) (fuel : ℕ) (ht : r.OnTrack s)
    (hroomy : ∀ s', r.Visits s s' → r.Roomy s') (hfuel : s.todo + s.first.toNat ≤ fuel) :
    ∃ cuts, r.fragmentLoop fuel s = .ok cuts ∧
      r.bundle.TilesFrom s.offset (cuts.map Cut.fragment) ∧
      (∀ c ∈ cuts, ∃ s', r.Visits s s' ∧ r.OnTrack s' ∧ c = r.cutAt s') ∧
      (s.first → 2 ≤ r.bundle.payload.length → 2 ≤ cuts.length) := by
  induction fuel generalizing s with
  | zero =>
    have hpos := ht.todo_pos
    omega
  | succ fuel ih =>
    have hr := hroomy s Relation.ReflTransGen.refl
    have hstep := hr.cutStep_eq hz ht
    have hlen := cutLen_le ht
    have hsum := ht.sum_eq
    have hcut : ∃ s', r.Visits s s' ∧ r.OnTrack s' ∧ r.cutAt s = r.cutAt s' :=
      ⟨s, Relation.ReflTransGen.refl, ht, rfl⟩
    unfold fragmentLoop
    simp only [hstep, bind, Except.bind]
    split_ifs with hdone
    · change s.todo - r.cutLen s = 0 at hdone
      refine ⟨_, rfl, tilesFrom_cons ht (by change s.offset + r.cutLen s = _; omega),
        by simpa using hcut, fun hf hp => ?_⟩
      have hlt := cutLen_lt ht hp hf
      omega
    · have hprogress : s.first = false → 0 < r.cutLen s := fun hf =>
        cutLen_pos ht (hr.1.resolve_right (by simp [hf]))
      have hless : (r.next s).todo + (r.next s).first.toNat ≤ fuel := by
        change s.todo - r.cutLen s + 0 ≤ fuel
        cases hf : s.first with
        | true =>
          rw [hf] at hfuel
          change s.todo + 1 ≤ fuel + 1 at hfuel
          omega
        | false =>
          have hpos := hprogress hf
          omega
      obtain ⟨cuts, hloop, htail, hcuts, -⟩ := ih (ht.next hdone)
        (fun s' hv => hroomy s' (Relation.ReflTransGen.head ⟨_, hstep, hdone⟩ hv)) hless
      refine ⟨r.cutAt s :: cuts, ?_, tilesFrom_cons ht htail, ?_, fun _ _ => ?_⟩
      · rw [hloop]
      · intro c hc
        rcases List.mem_cons.mp hc with rfl | hc
        · exact hcut
        · obtain ⟨s', hv, htrack, heq⟩ := hcuts c hc
          exact ⟨s', Relation.ReflTransGen.head ⟨_, hstep, hdone⟩ hv, htrack, heq⟩
      · have hne : cuts ≠ [] := by
          rintro rfl
          have hend : s.offset + r.cutLen s = r.bundle.payload.length := htail
          change s.todo - r.cutLen s ≠ 0 at hdone
          omega
        have hpos := List.length_pos_iff.mpr hne
        simp only [List.length_cons]
        omega

/-- The loop ends and no subtraction from a length wraps. -/
def Ends (r : FragmentRequest) (s : CutState) : Prop :=
  ∃ fuel cuts, r.fragmentLoop fuel s = .ok cuts ∧
    ∀ c ∈ cuts, r.reserved c.offset c.first c.last ≤ r.maxLength

/-- A fragment after the first one that has no room is made again and again. -/
theorem fragmentLoop_stuck (hz : r.Sized) (ht : r.OnTrack s) (hf : s.first = false)
    (hfull : r.reserved s.offset s.first (r.lastAt s) = r.maxLength) (fuel : ℕ) (cuts : List Cut) :
    r.fragmentLoop fuel s ≠ .ok cuts := by
  have hsum := ht.sum_eq
  have hpos := ht.todo_pos
  have hsize := hz.payload_lt
  induction fuel generalizing s cuts with
  | zero => simp [fragmentLoop]
  | succ fuel ih =>
    have hzero : r.cutLen s = 0 := by
      unfold cutLen
      dsimp only
      rw [if_neg (by omega)]
      omega
    have hstep := cutStep_eq hz ht hfull.le (by omega)
    have htodo : (r.next s).todo = s.todo := by
      change s.todo - r.cutLen s = s.todo
      omega
    have hoffset : (r.next s).offset = s.offset := by
      change s.offset + r.cutLen s = s.offset
      omega
    have hlast : r.lastAt (r.next s) = r.lastAt s := by
      unfold lastAt
      rw [htodo, hf]
      simp [FragmentRequest.next, lastAt, hf]
    have hmore := ht.next (by omega)
    intro hloop
    unfold fragmentLoop at hloop
    simp only [hstep, bind, Except.bind] at hloop
    rw [if_neg (by omega)] at hloop
    cases hrest : r.fragmentLoop fuel (r.next s) with
    | error e =>
      rw [hrest] at hloop
      cases hloop
    | ok rest =>
      refine ih hmore rfl ?_ rest hmore.sum_eq hmore.todo_pos hrest
      rw [hoffset, hlast, ← hfull, hf]
      rfl

theorem fragmentLoop_head {fuel : ℕ} {cuts : List Cut} (h : r.fragmentLoop fuel s = .ok cuts) :
    ∃ f, r.createFragment s.offset s.first (r.lastAt s) = .ok f ∧
      ⟨s.offset, s.first, r.lastAt s, f⟩ ∈ cuts := by
  cases fuel with
  | zero => cases h
  | succ fuel =>
    unfold fragmentLoop cutStep at h
    cases hc : r.createFragment s.offset s.first (r.lastAt s) with
    | error e => simp [hc, bind, Except.bind] at h
    | ok f =>
      refine ⟨f, rfl, ?_⟩
      simp only [hc, bind, Except.bind] at h
      split_ifs at h with hdone
      · cases h
        exact List.mem_cons_self
      · split at h
        · cases h
        · cases h
          exact List.mem_cons_self

theorem Ends.roomy (h : r.Ends s) (hz : r.Sized) (ht : r.OnTrack s) : r.Roomy s := by
  obtain ⟨fuel, cuts, hloop, hcuts⟩ := h
  obtain ⟨f, hcreate, hmem⟩ := fragmentLoop_head hloop
  have hle := hcuts _ hmem
  refine ⟨?_, ?_⟩
  · rcases lt_or_eq_of_le hle with hlt | hfull
    · exact Or.inl hlt
    · refine Or.inr ⟨?_, hfull⟩
      by_contra hf
      exact fragmentLoop_stuck hz ht (by simpa using hf) hfull fuel cuts hloop
  · by_contra hover
    rw [createFragment_wraps hz ht hle (Nat.not_lt.mp hover)] at hcreate
    cases hcreate

theorem Ends.next (h : r.Ends s) {s' : CutState} (hs : r.Steps s s') : r.Ends s' := by
  obtain ⟨fuel, cuts, hloop, hcuts⟩ := h
  obtain ⟨cut, hstep, hmore⟩ := hs
  cases fuel with
  | zero => cases hloop
  | succ fuel =>
    unfold fragmentLoop at hloop
    simp only [hstep, bind, Except.bind, if_neg hmore] at hloop
    cases hrest : r.fragmentLoop fuel s' with
    | error e =>
      rw [hrest] at hloop
      cases hloop
    | ok rest =>
      rw [hrest] at hloop
      cases hloop
      exact ⟨fuel, rest, hrest, fun c hc => hcuts c (List.mem_cons_of_mem cut hc)⟩

/-- The loop goes well exactly if each of its iterations has room. -/
theorem ends_iff (hz : r.Sized) (ht : r.OnTrack s) :
    r.Ends s ↔ ∀ s', r.Visits s s' → r.Roomy s' := by
  constructor
  · intro h s' hv
    have hgood : r.Ends s' ∧ r.OnTrack s' := by
      induction hv with
      | refl => exact ⟨h, ht⟩
      | tail _ hstep ih =>
        refine ⟨ih.1.next hstep, ?_⟩
        obtain ⟨cut, hcut, hmore⟩ := hstep
        rw [(ih.1.roomy hz ih.2).cutStep_eq hz ih.2] at hcut
        cases hcut
        exact ih.2.next hmore
    exact hgood.1.roomy hz hgood.2
  · intro h
    obtain ⟨cuts, hloop, -, hcuts, -⟩ := fragmentLoop_tiles hz _ ht h le_rfl
    refine ⟨_, cuts, hloop, fun c hc => ?_⟩
    obtain ⟨s', hv, -, rfl⟩ := hcuts c hc
    exact (h s' hv).reserved_le

theorem start_onTrack (hp : 0 < r.bundle.payload.length) : r.OnTrack r.start where
  sum_eq := Nat.zero_add _
  todo_pos := hp
  first_offset := fun _ => rfl
  first_last := fun _ => rfl

end FragmentRequest

/-! ## Version 7 -/

theorem sum_selectBlocks_cons (first last found : Bool) (b : BlockInfo) (blocks : List BlockInfo) :
    (blockLens (selectBlocks first last found (b :: blocks))).sum =
      (if b.type ≠ .payload ∧ inFragment first last found b then b.contents.length else 0) +
        (blockLens (selectBlocks first last (found || b.type = .payload) blocks)).sum := by
  rw [selectBlocks]
  by_cases hp : b.type = .payload
  · simp [hp, inFragment, blockLens]
  · by_cases hin : inFragment first last found b = true
    · simp [hp, hin, blockLens]
    · simp [hp, hin]

/-- The blocks of the first fragment are those that were counted for it. -/
theorem sum_selectBlocks_first (found : Bool) (blocks : List BlockInfo) :
    (blockLens (selectBlocks true false found blocks)).sum = (tally found blocks).1 := by
  induction blocks generalizing found with
  | nil => rfl
  | cons b blocks ih =>
    rw [sum_selectBlocks_cons, ih, tally]
    cases ht : b.type <;> cases found <;> cases hs : b.source <;>
      cases hr : b.blockFlags.testBit 0 <;> simp [inFragment, ht, hs, hr]

/-- The blocks of the last fragment are those that were counted for it. -/
theorem sum_selectBlocks_last (found : Bool) (blocks : List BlockInfo) :
    (blockLens (selectBlocks false true found blocks)).sum = (tally found blocks).2 := by
  induction blocks generalizing found with
  | nil => rfl
  | cons b blocks ih =>
    rw [sum_selectBlocks_cons, ih, tally]
    cases ht : b.type <;> cases found <;> cases hs : b.source <;>
      cases hr : b.blockFlags.testBit 0 <;> simp [inFragment, ht, hs, hr]

/-- A fragment between them has no more. -/
theorem sum_selectBlocks_middle (found : Bool) (blocks : List BlockInfo) :
    (blockLens (selectBlocks false false found blocks)).sum ≤ (tally found blocks).2 := by
  induction blocks generalizing found with
  | nil => exact le_rfl
  | cons b blocks ih =>
    have hfalse := ih false
    have htrue := ih true
    rw [sum_selectBlocks_cons, tally]
    cases ht : b.type <;> cases found <;> cases hs : b.source <;>
      cases hr : b.blockFlags.testBit 0 <;> simp [inFragment, ht, hs, hr] <;> omega

theorem FragmentRequest.reserved_eq (r : FragmentRequest) (offset : ℕ) (first last : Bool) :
    r.reserved offset first last =
      (blockLens (selectBlocks first last false r.xmitBlocks)).sum + (r.fields offset).sum + 12 := by
  simp only [FragmentRequest.reserved, FragmentRequest.subtrahends, List.sum_append, List.sum_cons,
    List.sum_nil, Nat.add_zero]

/-- Wherever a cut is made, every iteration has room if each iteration on track has. -/
theorem FragmentRequest.visits_roomy {r : FragmentRequest} (hz : r.Sized) {s : CutState}
    (ht : r.OnTrack s) (h : ∀ s, r.OnTrack s → r.Roomy s) {s' : CutState} (hv : r.Visits s s') :
    r.Roomy s' := by
  apply h
  induction hv with
  | refl => exact ht
  | tail _ hstep ih =>
    obtain ⟨cut, hcut, hmore⟩ := hstep
    rw [(h _ ih).cutStep_eq hz ih] at hcut
    cases hcut
    exact ih.next hmore

section Bp7
variable {bundle : Bundle} {xmitBlocks : List BlockInfo} {maxLength : ℕ}

/-- The check that was made before the loop leaves room for two bytes. -/
theorem requestBp7_reserved {s : CutState}
    (hfirst : 2 + (tally false xmitBlocks).1 + (fieldsBp7 bundle + 12) < maxLength)
    (hlast : 2 + (tally false xmitBlocks).2 + (fieldsBp7 bundle + 12) < maxLength)
    (ht : (requestBp7 bundle xmitBlocks maxLength).OnTrack s) :
    (requestBp7 bundle xmitBlocks maxLength).reserved s.offset s.first
      ((requestBp7 bundle xmitBlocks maxLength).lastAt s) < maxLength := by
  have hf := sum_selectBlocks_first false xmitBlocks
  have hl := sum_selectBlocks_last false xmitBlocks
  have hm := sum_selectBlocks_middle false xmitBlocks
  rw [FragmentRequest.reserved_eq]
  change (blockLens (selectBlocks _ _ false xmitBlocks)).sum + (fieldsBp7 bundle + 0) + 12 < maxLength
  cases hs : s.first with
  | true =>
    have hnot : (requestBp7 bundle xmitBlocks maxLength).lastAt s = false := by
      simp [FragmentRequest.lastAt, hs, ht.first_last hs]
    rw [hnot]
    omega
  | false =>
    cases (requestBp7 bundle xmitBlocks maxLength).lastAt s with
    | true => omega
    | false => omega

end Bp7

/-- Fragments that cut up a bundle. -/
structure Partitions (bundle : Bundle) (fragments : List Bundle) : Prop where
  two_le : 2 ≤ fragments.length
  nonempty : ∀ f ∈ fragments, 1 ≤ f.payload.length
  tiles : bundle.TilesFrom 0 fragments
  payload_eq : fragments.flatMap Bundle.payload = bundle.payload

/-- No subtraction that gave the length of a fragment wraps. -/
def FragmentRequest.NoWrap (r : FragmentRequest) (c : Cut) : Prop :=
  NoBorrow r.maxLength (r.subtrahends c.offset c.first c.last) ∧
    c.offset ≤ r.bundle.payload.length

theorem FragmentRequest.Roomy.noWrap {r : FragmentRequest} {s : CutState} (h : r.Roomy s)
    (ht : r.OnTrack s) : r.NoWrap (r.cutAt s) := by
  have hsum := ht.sum_eq
  refine ⟨noBorrow_iff.mpr h.reserved_le, ?_⟩
  change s.offset ≤ _
  omega

theorem FragmentManager.fragment_eq (m : FragmentManager) {r : FragmentRequest} {fuel : ℕ}
    (hstate : r.bundle.isFragment → (m.fragmentTable.find? r.bundle.hashKey).isSome) {cuts : List Cut}
    (hloop : r.fragmentLoop fuel r.start = .ok cuts) :
    ∃ m', m.fragment r fuel = .ok (some cuts, m') := by
  obtain ⟨state, hs⟩ : ∃ state, m.fragmentState r.bundle = some state := by
    unfold FragmentManager.fragmentState
    split_ifs with hf
    · exact Option.isSome_iff_exists.mp (hstate hf)
    · exact ⟨_, rfl⟩
  unfold FragmentManager.fragment
  simp only [hs, hloop, bind, Except.bind]
  exact ⟨_, rfl⟩

/-- A fragment without a state in the table ends in a null state. -/
theorem FragmentManager.fragment_state {m m' : FragmentManager} {r : FragmentRequest} {fuel : ℕ}
    {cuts : Option (List Cut)} (h : m.fragment r fuel = .ok (cuts, m')) (hf : r.bundle.isFragment) :
    (m.fragmentTable.find? r.bundle.hashKey).isSome := by
  unfold FragmentManager.fragment at h
  split at h
  · cases h
  · next state hstate =>
    rw [FragmentManager.fragmentState, if_pos hf] at hstate
    rw [hstate]
    rfl

theorem FragmentManager.fragment_some {m m' : FragmentManager} {r : FragmentRequest} {fuel : ℕ}
    {cuts : Option (List Cut)} (h : m.fragment r fuel = .ok (cuts, m')) :
    ∃ l, cuts = some l ∧ r.fragmentLoop fuel r.start = .ok l := by
  unfold FragmentManager.fragment at h
  split at h
  · cases h
  · cases hloop : r.fragmentLoop fuel r.start with
    | error e =>
      rw [hloop] at h
      cases h
    | ok l =>
      rw [hloop] at h
      cases h
      exact ⟨l, rfl, rfl⟩

/-- Unless it gives up, the fragmentation of a version 7 bundle ends and partitions the payload,
and no length wraps. -/
theorem proactivelyFragmentBp7_partitions {m : FragmentManager} {bundle : Bundle}
    {xmitBlocks : List BlockInfo} {maxLength : ℕ} (hp : 2 ≤ bundle.payload.length)
    (hsize : bundle.payload.length + maxLength < 2 ^ 64)
    (hstate : bundle.isFragment → (m.fragmentTable.find? bundle.hashKey).isSome)
    (hnull : ∀ fuel m', proactivelyFragmentBp7 m bundle xmitBlocks maxLength fuel ≠ .ok (none, m')) :
    ∃ fuel cuts m', proactivelyFragmentBp7 m bundle xmitBlocks maxLength fuel = .ok (some cuts, m') ∧
      (∀ c ∈ cuts, (requestBp7 bundle xmitBlocks maxLength).NoWrap c) ∧
      Partitions bundle (cuts.map Cut.fragment) := by
  set r := requestBp7 bundle xmitBlocks maxLength with hr
  have hgiven : ¬ (maxLength ≤ 2 + (tally false xmitBlocks).1 + (fieldsBp7 bundle + 12) ∨
      maxLength ≤ 2 + (tally false xmitBlocks).2 + (fieldsBp7 bundle + 12)) := by
    intro hbig
    apply hnull 0 m
    unfold proactivelyFragmentBp7
    rw [if_neg (by omega), if_pos hbig]
  have hz : r.Sized := ⟨by change bundle.payload.length < _; omega, by change maxLength < _; omega⟩
  have hroomy : ∀ s, r.OnTrack s → r.Roomy s := by
    intro s ht
    have hres := requestBp7_reserved (by omega) (by omega) ht
    have hsum := ht.sum_eq
    refine ⟨Or.inl hres, ?_⟩
    change s.offset + s.todo = bundle.payload.length at hsum
    change s.offset + (maxLength - _) < _
    omega
  have hstart : r.OnTrack r.start := FragmentRequest.start_onTrack (by change 0 < bundle.payload.length; omega)
  obtain ⟨cuts, hloop, htiles, hcuts, htwo⟩ := FragmentRequest.fragmentLoop_tiles hz _ hstart
    (fun s' hv => FragmentRequest.visits_roomy hz hstart hroomy hv) le_rfl
  obtain ⟨m', hfragment⟩ := m.fragment_eq hstate hloop
  refine ⟨r.start.todo + r.start.first.toNat, cuts, m', ?_, ?_, ?_, ?_, htiles, ?_⟩
  · unfold proactivelyFragmentBp7
    rw [if_neg (by omega), if_neg hgiven]
    exact hfragment
  · intro c hc
    obtain ⟨s', -, ht, rfl⟩ := hcuts c hc
    exact (hroomy s' ht).noWrap ht
  · rw [List.length_map]
    exact htwo rfl hp
  · intro f hf
    obtain ⟨c, hc, rfl⟩ := List.mem_map.mp hf
    obtain ⟨s', -, ht, rfl⟩ := hcuts c hc
    have hpos := FragmentRequest.cutLen_pos ht (requestBp7_reserved (by omega) (by omega) ht)
    rwa [← FragmentRequest.length_fragmentAt ht] at hpos
  · have hbytes := htiles.payload_eq
    change _ = bundle.payload.drop 0 at hbytes
    rwa [List.drop_zero] at hbytes

/-- A primary block of thirty bytes and the preamble of a payload block. -/
def twoBlocks : List BlockInfo :=
  [{ type := .primary, contents := List.replicate 30 0 }, { type := .payload, contents := [1, 0, 200] }]

/-- A payload of two hundred bytes. -/
def wideBundle : Bundle := { payload := List.replicate 200 0 }

theorem proactivelyFragmentBp7_partitions_halves :
    (∀ fuel m', proactivelyFragmentBp7 {} wideBundle twoBlocks 150 fuel ≠ .ok (none, m')) ∧
    ∃ fuel cuts m', proactivelyFragmentBp7 {} wideBundle twoBlocks 150 fuel = .ok (some cuts, m') ∧
      (∀ c ∈ cuts, (requestBp7 wideBundle twoBlocks 150).NoWrap c) ∧
      Partitions wideBundle (cuts.map Cut.fragment) := by
  have hnull : ∀ fuel m', proactivelyFragmentBp7 {} wideBundle twoBlocks 150 fuel ≠ .ok (none, m') := by
    intro fuel m' h
    unfold proactivelyFragmentBp7 at h
    rw [if_neg (by decide +kernel), if_neg (by decide +kernel)] at h
    obtain ⟨l, hl, -⟩ := FragmentManager.fragment_some h
    cases hl
  exact ⟨hnull, proactivelyFragmentBp7_partitions (by decide +kernel) (by decide +kernel)
    (by simp [wideBundle]) hnull⟩

/-- The largest `size_t`. -/
def wideRequest : FragmentRequest := requestBp7 wideBundle twoBlocks (2 ^ 64 - 1)

/-- With the largest length the end of the second fragment wraps. -/
theorem proactivelyFragmentBp7_wraps :
    2 ≤ wideBundle.payload.length ∧
    (∀ fuel m', proactivelyFragmentBp7 {} wideBundle twoBlocks (2 ^ 64 - 1) fuel ≠ .ok (none, m')) ∧
    ¬ ∃ fuel cuts m', proactivelyFragmentBp7 {} wideBundle twoBlocks (2 ^ 64 - 1) fuel =
          .ok (some cuts, m') ∧
        (∀ c ∈ cuts, wideRequest.NoWrap c) ∧ Partitions wideBundle (cuts.map Cut.fragment) := by
  have hopen : ∀ fuel, proactivelyFragmentBp7 {} wideBundle twoBlocks (2 ^ 64 - 1) fuel =
      FragmentManager.fragment {} wideRequest fuel := by
    intro fuel
    unfold proactivelyFragmentBp7
    rw [if_neg (by decide +kernel), if_neg (by decide +kernel)]
    rfl
  refine ⟨by decide +kernel, fun fuel m' h => ?_, ?_⟩
  · rw [hopen] at h
    obtain ⟨l, hl, -⟩ := FragmentManager.fragment_some h
    cases hl
  · rintro ⟨fuel, cuts, m', h, hwrap, -⟩
    rw [hopen] at h
    obtain ⟨l, hl, hloop⟩ := FragmentManager.fragment_some h
    cases hl
    have hz : wideRequest.Sized := ⟨by decide +kernel, by decide +kernel⟩
    have ht := FragmentRequest.start_onTrack (r := wideRequest) (by decide +kernel)
    have hends : wideRequest.Ends wideRequest.start :=
      ⟨fuel, cuts, hloop, fun c hc => noBorrow_iff.mp (hwrap c hc).1⟩
    have hroomy := (FragmentRequest.ends_iff hz ht).mp hends
    have hstep := (hroomy _ Relation.ReflTransGen.refl).cutStep_eq hz ht
    have hnext := hroomy (wideRequest.next wideRequest.start)
      (Relation.ReflTransGen.single ⟨_, hstep, by decide +kernel⟩)
    exact absurd hnext.2 (by decide +kernel)

/-! ## Version 6 -/

/-- No subtraction of `create_fragment_bp6` wraps, that of the two field lengths included. -/
def NoWrapBp6 (bundle : Bundle) (xmitBlocks : List BlockInfo) (maxLength : ℕ) (c : Cut) : Prop :=
  (requestBp6 bundle xmitBlocks maxLength).NoWrap c ∧
    (bundle.isFragment → encodingLen bundle.fragOffset ≤ encodingLen (u64 (bundle.fragOffset + c.offset)))

/-- The fragmentation ends, no length wraps, and the fragments tile the payload. -/
def FragmentsBp6 (m : FragmentManager) (bundle : Bundle) (xmitBlocks : List BlockInfo)
    (maxLength : ℕ) : Prop :=
  ∃ fuel cuts m', proactivelyFragmentBp6 m bundle xmitBlocks maxLength fuel = .ok (some cuts, m') ∧
    (∀ c ∈ cuts, NoWrapBp6 bundle xmitBlocks maxLength c) ∧
    bundle.TilesFrom 0 (cuts.map Cut.fragment) ∧
    (cuts.map Cut.fragment).flatMap Bundle.payload = bundle.payload

theorem valLen_le (fuel val : ℕ) : valLen fuel val ≤ fuel := by
  induction fuel generalizing val with
  | zero => exact le_rfl
  | succ fuel ih =>
    unfold valLen
    split_ifs
    · omega
    · have hrec := ih (val / 128)
      omega

/-- A difference of field lengths that wraps leaves no room. -/
theorem requestBp6_grows {bundle : Bundle} {xmitBlocks : List BlockInfo} {maxLength offset : ℕ}
    {first last : Bool} (hmax : maxLength < 2 ^ 64)
    (h : (requestBp6 bundle xmitBlocks maxLength).reserved offset first last ≤ maxLength)
    (hf : bundle.isFragment) :
    encodingLen bundle.fragOffset ≤ encodingLen (u64 (bundle.fragOffset + offset)) := by
  have hlen : encodingLen bundle.fragOffset ≤ 10 := valLen_le _ _
  rw [FragmentRequest.reserved_eq] at h
  simp only [requestBp6, subtractedBp6, hf, if_true, List.sum_cons, List.sum_nil] at h
  by_contra hless
  have hwrap : u64Sub (encodingLen (u64 (bundle.fragOffset + offset))) (encodingLen bundle.fragOffset) =
      2 ^ 64 + encodingLen (u64 (bundle.fragOffset + offset)) - encodingLen bundle.fragOffset := by
    generalize encodingLen (u64 (bundle.fragOffset + offset)) = a at *
    unfold u64Sub u64
    omega
  omega

/-- The fragmentation of a version 6 bundle goes well exactly if a fragment has its state in the
table and every iteration of the loop has room in the reduced length for what is subtracted. -/
theorem proactivelyFragmentBp6_iff {m : FragmentManager} {bundle : Bundle}
    {xmitBlocks : List BlockInfo} {maxLength : ℕ} (hp : 2 ≤ bundle.payload.length)
    (hsize : bundle.payload.length < 2 ^ 64) (hmax : maxLength < 2 ^ 64)
    (hnull : ∀ fuel m', proactivelyFragmentBp6 m bundle xmitBlocks maxLength fuel ≠ .ok (none, m')) :
    FragmentsBp6 m bundle xmitBlocks maxLength ↔
      (bundle.isFragment → (m.fragmentTable.find? bundle.hashKey).isSome) ∧
        ∀ s, (requestBp6 bundle xmitBlocks maxLength).Visits
            (requestBp6 bundle xmitBlocks maxLength).start s →
          (requestBp6 bundle xmitBlocks maxLength).Roomy s := by
  set r := requestBp6 bundle xmitBlocks maxLength with hr
  have hgiven : ¬ (maxLength ≤ (tally false xmitBlocks).1 + (fieldsBp6 bundle + 12) ∨
      maxLength ≤ (tally false xmitBlocks).2 + (fieldsBp6 bundle + 12)) := by
    intro hbig
    apply hnull 0 m
    unfold proactivelyFragmentBp6
    rw [if_neg (by omega), if_pos hbig]
  have hopen : ∀ fuel, proactivelyFragmentBp6 m bundle xmitBlocks maxLength fuel =
      m.fragment r fuel := by
    intro fuel
    unfold proactivelyFragmentBp6
    rw [if_neg (by omega), if_neg hgiven]
  have hless : r.maxLength ≤ maxLength := by
    change (if 10 < maxLength then maxLength - 10 else maxLength) ≤ maxLength
    split_ifs <;> omega
  have hz : r.Sized := ⟨hsize, by omega⟩
  have ht : r.OnTrack r.start := FragmentRequest.start_onTrack (by change 0 < bundle.payload.length; omega)
  constructor
  · rintro ⟨fuel, cuts, m', h, hwrap, -⟩
    rw [hopen] at h
    obtain ⟨l, hl, hloop⟩ := FragmentManager.fragment_some h
    cases hl
    exact ⟨FragmentManager.fragment_state h, (FragmentRequest.ends_iff hz ht).mp
      ⟨fuel, cuts, hloop, fun c hc => noBorrow_iff.mp (hwrap c hc).1.1⟩⟩
  · rintro ⟨hstate, hroomy⟩
    obtain ⟨cuts, hloop, htiles, hcuts, -⟩ := FragmentRequest.fragmentLoop_tiles hz _ ht hroomy le_rfl
    obtain ⟨m', hfragment⟩ := m.fragment_eq hstate hloop
    refine ⟨r.start.todo + r.start.first.toNat, cuts, m', (hopen _).trans hfragment, ?_, htiles, ?_⟩
    · intro c hc
      obtain ⟨s', hv, htrack, rfl⟩ := hcuts c hc
      have hroom := hroomy s' hv
      exact ⟨hroom.noWrap htrack, requestBp6_grows hmax (hroom.reserved_le.trans hless)⟩
    · have hbytes := htiles.payload_eq
      change _ = bundle.payload.drop 0 at hbytes
      rwa [List.drop_zero] at hbytes

theorem proactivelyFragmentBp6_iff_halves :
    (∀ fuel m', proactivelyFragmentBp6 {} wideBundle twoBlocks 150 fuel ≠ .ok (none, m')) ∧
    (FragmentsBp6 {} wideBundle twoBlocks 150 ↔
      (wideBundle.isFragment → (OrdMap.find? ({} : FragmentManager).fragmentTable
        wideBundle.hashKey).isSome) ∧
      ∀ s, (requestBp6 wideBundle twoBlocks 150).Visits (requestBp6 wideBundle twoBlocks 150).start s →
        (requestBp6 wideBundle twoBlocks 150).Roomy s) := by
  have hnull : ∀ fuel m', proactivelyFragmentBp6 {} wideBundle twoBlocks 150 fuel ≠ .ok (none, m') := by
    intro fuel m' h
    unfold proactivelyFragmentBp6 at h
    rw [if_neg (by decide +kernel), if_neg (by decide +kernel)] at h
    obtain ⟨l, hl, -⟩ := FragmentManager.fragment_some h
    cases hl
  exact ⟨hnull, proactivelyFragmentBp6_iff (by decide +kernel) (by decide +kernel) (by decide) hnull⟩

/-- A length that passes the check by one byte is too small once it is reduced by ten. -/
theorem proactivelyFragmentBp6_wraps :
    2 ≤ wideBundle.payload.length ∧
    (∀ fuel m', proactivelyFragmentBp6 {} wideBundle twoBlocks 45 fuel ≠ .ok (none, m')) ∧
    ¬ FragmentsBp6 {} wideBundle twoBlocks 45 := by
  have hopen : ∀ fuel, proactivelyFragmentBp6 {} wideBundle twoBlocks 45 fuel =
      FragmentManager.fragment {} (requestBp6 wideBundle twoBlocks 45) fuel := by
    intro fuel
    unfold proactivelyFragmentBp6
    rw [if_neg (by decide +kernel), if_neg (by decide +kernel)]
  refine ⟨by decide +kernel, fun fuel m' h => ?_, ?_⟩
  · rw [hopen] at h
    obtain ⟨l, hl, -⟩ := FragmentManager.fragment_some h
    cases hl
  · rintro ⟨fuel, cuts, m', h, hwrap, -⟩
    rw [hopen] at h
    obtain ⟨l, hl, hloop⟩ := FragmentManager.fragment_some h
    cases hl
    obtain ⟨f, -, hmem⟩ := FragmentRequest.fragmentLoop_head hloop
    have hle : ((requestBp6 wideBundle twoBlocks 45).subtrahends 0 true false).sum ≤ 35 :=
      noBorrow_iff.mp (hwrap _ hmem).1.1
    exact absurd hle (by decide +kernel)

end Dtnme.Bundling
