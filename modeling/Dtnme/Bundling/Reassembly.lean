import Dtnme.Bundling.Bundle
import Dtnme.Library.Intervals
import Dtnme.Library.OrdMap
import Dtnme.Library.Transition

/-! # Reassembly of fragments

`FragmentManager::process_for_reassembly` and the sweep of `FragmentState::check_completed`.
The fragments of one bundle share a key of the fragment table; its entry is made at the
first fragment and removed when the bundle is complete.
-/

namespace Dtnme.Bundling
open Library

/-! ## The code -/

/-- `BundleList::insert_sorted` by `SORT_FRAG_OFFSET`. -/
def insertSorted (b : Bundle) : List Bundle → List Bundle
  | [] => [b]
  | c :: l => if b.fragOffset < c.fragOffset then b :: c :: l else c :: insertSorted b l

structure FragmentState where
  bundle : Bundle
  fragments : List Bundle := []
  deriving DecidableEq, Repr

/-- The loop of `check_completed`. -/
def sweep (totalLen : ℕ) : ℕ → List Bundle → Except Fault Bool
  | doneUpTo, [] => .ok (doneUpTo == totalLen)
  | doneUpTo, f :: fragments =>
    if f.isFragment = false then .error .assertFailed
    else if f.origLength ≠ totalLen then .error .panic
    -- adjacent to the bytes so far
    else if doneUpTo = f.fragOffset then sweep totalLen (u64 (doneUpTo + f.payload.length)) fragments
    -- a gap
    else if doneUpTo < f.fragOffset then .ok false
    -- completely redundant
    else if u64 (f.fragOffset + f.payload.length) < doneUpTo then sweep totalLen doneUpTo fragments
    else
      let fLen := u64Sub f.payload.length (u64Sub doneUpTo f.fragOffset)
      sweep totalLen (u64 (doneUpTo + fLen)) fragments

/-- `FragmentState::check_completed`. -/
def FragmentState.checkCompleted (s : FragmentState) : Except Fault Bool :=
  sweep s.bundle.payload.length 0 s.fragments

/-- The copy constructor. Block number and flags are those of a new block; version 6 reads its flags
from the contents. -/
def BlockInfo.copy (bpVersion : ℕ) (b : BlockInfo) : BlockInfo :=
  { b with blockNumber := 0, blockFlags := if bpVersion = 6 then b.blockFlags else 0 }

/-- The blocks up to the payload block. -/
def headBlocks : List BlockInfo → List BlockInfo
  | [] => []
  | b :: l => if b.type = .payload then [b] else b :: headBlocks l

/-- The blocks that follow the payload block. -/
def tailBlocks : List BlockInfo → List BlockInfo
  | [] => []
  | b :: l => if b.type = .payload then l else tailBlocks l

/-- The blocks of the reassembled bundle are copies of those of the first and of the last
fragment. -/
def mergeBlocks (recvBlocks : List BlockInfo) (fragment : Bundle) : List BlockInfo :=
  let copies := List.map (BlockInfo.copy fragment.bpVersion)
  let recvBlocks :=
    if fragment.fragOffset = 0 then copies (headBlocks fragment.recvBlocks) ++ recvBlocks
    else recvBlocks
  if u64 (fragment.fragOffset + fragment.payload.length) = fragment.origLength then
    recvBlocks ++ copies (tailBlocks fragment.recvBlocks)
  else recvBlocks

/-- The state for the first fragment to arrive. -/
def newState (fragment : Bundle) : FragmentState :=
  { bundle := { fragment.copyMetadata with
                isFragment := false, payload := List.replicate fragment.origLength 0 } }

/-- The table, and the bundles of the `ReassemblyCompletedEvent`s that were posted. -/
structure FragmentManager where
  fragmentTable : OrdMap String FragmentState := .empty
  posted : List Bundle := []

def FragmentManager.stateFor (m : FragmentManager) (fragment : Bundle) : FragmentState :=
  (m.fragmentTable.find? fragment.hashKey).getD (newState fragment)

/-- The fragment goes on the list and its data into the reassembled bundle. -/
def FragmentState.take (s : FragmentState) (fragment : Bundle) : Except Fault FragmentState := do
  let payload ← writeData s.bundle.payload fragment.payload 0 fragment.payload.length
    fragment.fragOffset
  .ok { bundle := { s.bundle with
                    payload := payload, recvBlocks := mergeBlocks s.bundle.recvBlocks fragment }
        fragments := insertSorted fragment s.fragments }

/-- `FragmentManager::process_for_reassembly`. -/
def processForReassembly (m : FragmentManager) (fragment : Bundle) : Except Fault FragmentManager :=
  if fragment.isFragment then do
    let state ← (m.stateFor fragment).take fragment
    let completed ← state.checkCompleted
    if completed then
      .ok { fragmentTable := m.fragmentTable.erase fragment.hashKey
            posted := state.bundle :: m.posted }
    else .ok { m with fragmentTable := m.fragmentTable.insert fragment.hashKey state }
  else .error .assertFailed

/-! ## Fragments of one bundle -/

/-- The place of a fragment in the original payload. -/
def Bundle.span (f : Bundle) : ℕ × ℕ := (f.fragOffset, f.payload.length)

/-- A fragment of `orig`: a slice of its payload, with the same identity and original length. -/
structure FragmentOf (orig f : Bundle) : Prop where
  isFragment : f.isFragment = true
  hashKey_eq : f.hashKey = orig.hashKey
  origLength_eq : f.origLength = orig.payload.length
  span_le : f.fragOffset + f.payload.length ≤ orig.payload.length
  payload_eq : f.payload = slice orig.payload f.fragOffset f.payload.length

theorem insertSorted_perm (b : Bundle) (l : List Bundle) : (insertSorted b l).Perm (b :: l) := by
  induction l with
  | nil => exact List.Perm.refl _
  | cons c l ih =>
    unfold insertSorted
    split_ifs
    · exact List.Perm.refl _
    · exact (ih.cons c).trans (List.Perm.swap b c l)

theorem insertSorted_sorted (b : Bundle) {l : List Bundle}
    (h : l.Pairwise (fun c d => c.fragOffset ≤ d.fragOffset)) :
    (insertSorted b l).Pairwise (fun c d => c.fragOffset ≤ d.fragOffset) := by
  induction l with
  | nil => exact List.pairwise_singleton _ _
  | cons c l ih =>
    have hc := List.pairwise_cons.mp h
    unfold insertSorted
    split_ifs with hlt
    · refine List.pairwise_cons.mpr ⟨fun d hd => ?_, h⟩
      rcases List.mem_cons.mp hd with rfl | hd
      · exact hlt.le
      · exact hlt.le.trans (hc.1 d hd)
    · refine List.pairwise_cons.mpr ⟨fun d hd => ?_, ih hc.2⟩
      rcases List.mem_cons.mp ((insertSorted_perm b l).subset hd) with rfl | hd
      · exact Nat.not_lt.mp hlt
      · exact hc.1 d hd

section
variable {orig : Bundle} (hsize : orig.payload.length < 2 ^ 64)
include hsize

/-- The sweep of the code is the sweep over intervals. -/
theorem sweep_eq_reach {fragments : List Bundle} {doneUpTo : ℕ}
    (hf : ∀ f ∈ fragments, FragmentOf orig f) (hd : doneUpTo ≤ orig.payload.length) :
    sweep orig.payload.length doneUpTo fragments =
      .ok (reach doneUpTo (fragments.map Bundle.span) == some orig.payload.length) := by
  induction fragments generalizing doneUpTo with
  | nil => simp [sweep, reach]
  | cons f fragments ih =>
    have hof := hf f List.mem_cons_self
    have hle := hof.span_le
    have hrest := fun g hg => hf g (List.mem_cons_of_mem f hg)
    simp only [sweep, hof.isFragment, hof.origLength_eq, Bool.true_eq_false, if_false,
      ne_eq, not_true_eq_false, List.map_cons, reach, Bundle.span]
    split_ifs with hfit hhole hgap hred
    · omega
    · rw [u64_of_lt (by omega), ih hrest (by omega), show max doneUpTo (f.fragOffset + f.payload.length) =
        doneUpTo + f.payload.length by omega]
    · simp
    · rw [u64_of_lt (by omega)] at hred
      rw [ih hrest hd, show max doneUpTo (f.fragOffset + f.payload.length) = doneUpTo by omega]
    · rw [u64_of_lt (by omega)] at hred
      have hover : u64Sub doneUpTo f.fragOffset = doneUpTo - f.fragOffset :=
        u64Sub_of_le (by omega) (by omega)
      rw [hover, u64Sub_of_le (by omega) (by omega), u64_of_lt (by omega), ih hrest (by omega), show max doneUpTo (f.fragOffset + f.payload.length) =
          doneUpTo + (f.payload.length - (doneUpTo - f.fragOffset)) by omega]

end

/-- A state that holds the fragments `got`: they are on its list, sorted, and where they cover
the payload it is the original one. -/
structure Gathers (orig : Bundle) (s : FragmentState) (got : List Bundle) : Prop where
  perm : s.fragments.Perm got
  sorted : s.fragments.Pairwise (fun c d => c.fragOffset ≤ d.fragOffset)
  fragments_of : ∀ f ∈ got, FragmentOf orig f
  length_eq : s.bundle.payload.length = orig.payload.length
  agrees : ∀ i, Covered (got.map Bundle.span) i → s.bundle.payload[i]? = orig.payload[i]?

namespace Gathers
variable {orig : Bundle} {s : FragmentState} {got : List Bundle}

theorem newState {f : Bundle} (hf : FragmentOf orig f) : Gathers orig (newState f) [] where
  perm := List.Perm.refl _
  sorted := List.Pairwise.nil
  fragments_of := by simp
  length_eq := by simp [Bundling.newState, hf.origLength_eq]
  agrees := by simp [Covered]

theorem take (h : Gathers orig s got) {f : Bundle} (hf : FragmentOf orig f) :
    ∃ s', s.take f = .ok s' ∧ Gathers orig s' (got ++ [f]) := by
  have hle := hf.span_le
  have hlen := h.length_eq
  have hwrite : writeData s.bundle.payload f.payload 0 f.payload.length f.fragOffset =
      .ok (overwrite s.bundle.payload f.fragOffset f.payload) := by
    rw [writeData_ok (by omega) (by omega), slice_all]
  have hroom : f.fragOffset + f.payload.length ≤ s.bundle.payload.length := by omega
  unfold FragmentState.take
  rw [hwrite]
  refine ⟨_, rfl, ?_, insertSorted_sorted f h.sorted, ?_, ?_, fun i hi => ?_⟩
  · exact (insertSorted_perm f s.fragments).trans
      ((h.perm.cons f).trans (List.perm_append_singleton f got).symm)
  · simpa [or_imp, forall_and] using ⟨h.fragments_of, hf⟩
  · exact (length_overwrite hroom).trans hlen
  · change (overwrite s.bundle.payload f.fragOffset f.payload)[i]? = orig.payload[i]?
    by_cases hin : f.fragOffset ≤ i ∧ i < f.fragOffset + f.payload.length
    · rw [getElem?_overwrite_inside hroom hin.1 hin.2, hf.payload_eq, getElem?_slice (by omega)]
      congr 1
      omega
    · rw [getElem?_overwrite_outside hroom (by omega)]
      apply h.agrees
      rw [List.map_append, List.map_singleton, Covered.perm (List.perm_append_singleton f.span _),
        covered_cons] at hi
      exact hi.resolve_left hin

theorem checkCompleted (h : Gathers orig s got) (hsize : orig.payload.length < 2 ^ 64) :
    s.checkCompleted = .ok (decide (Covers (got.map Bundle.span) 0 orig.payload.length)) := by
  have hof : ∀ f ∈ s.fragments, FragmentOf orig f := fun f hf => h.fragments_of f (h.perm.subset hf)
  have hin : ∀ p ∈ s.fragments.map Bundle.span, p.1 + p.2 ≤ orig.payload.length := by
    intro p hp
    obtain ⟨f, hf, rfl⟩ := List.mem_map.mp hp
    exact (hof f hf).span_le
  have hreach := reach_eq_some_iff (List.pairwise_map.mpr h.sorted) hin (Nat.zero_le _)
  rw [Covers.perm (h.perm.map Bundle.span)] at hreach
  unfold FragmentState.checkCompleted
  rw [h.length_eq, sweep_eq_reach hsize hof (Nat.zero_le _)]
  congr 1
  rw [Bool.eq_iff_iff, beq_iff_eq, decide_eq_true_iff]
  exact hreach

theorem payload_eq (h : Gathers orig s got)
    (hc : Covers (got.map Bundle.span) 0 orig.payload.length) :
    s.bundle.payload = orig.payload := by
  apply List.ext_getElem?
  intro i
  by_cases hi : i < orig.payload.length
  · exact h.agrees i (hc i (Nat.zero_le i) hi)
  · have hlen := h.length_eq
    rw [List.getElem?_eq_none (by omega), List.getElem?_eq_none (by omega)]

end Gathers

/-! ## Runs -/

/-- What reassembly is for: the fragments that wait for the rest of their bundle. They are handed
over, and the count starts anew, when they cover the payload. -/
def waiting (orig : Bundle) (fragments : List Bundle) : List Bundle :=
  fragments.foldl (fun got f =>
    if Covers ((got ++ [f]).map Bundle.span) 0 orig.payload.length then [] else got ++ [f]) []

theorem waiting_append (orig : Bundle) (fragments : List Bundle) (f : Bundle) :
    waiting orig (fragments ++ [f]) =
      if Covers ((waiting orig fragments ++ [f]).map Bundle.span) 0 orig.payload.length then []
      else waiting orig fragments ++ [f] := by
  unfold waiting
  rw [List.foldl_append]
  rfl

/-- The manager holds the waiting fragments of `orig`. -/
def HoldsWaiting (orig : Bundle) (m : FragmentManager) (past : List Bundle) : Prop :=
  match m.fragmentTable.find? orig.hashKey with
  | none => waiting orig past = []
  | some s => Gathers orig s (waiting orig past)

theorem HoldsWaiting.stateFor {orig : Bundle} {m : FragmentManager} {past : List Bundle} {f : Bundle}
    (h : HoldsWaiting orig m past) (hf : FragmentOf orig f) :
    Gathers orig (m.stateFor f) (waiting orig past) := by
  unfold HoldsWaiting at h
  unfold FragmentManager.stateFor
  rw [hf.hashKey_eq]
  cases hfind : m.fragmentTable.find? orig.hashKey with
  | none =>
    rw [hfind] at h
    rw [h]
    exact Gathers.newState hf
  | some s =>
    rw [hfind] at h
    exact h

/-- The bundle is posted exactly if the waiting fragments, with this one, cover its payload. -/
def Posts (orig : Bundle) (got : List Bundle) (m m' : FragmentManager) : Prop :=
  if Covers (got.map Bundle.span) 0 orig.payload.length then
    ∃ b, m'.posted = b :: m.posted ∧ b.payload = orig.payload
  else m'.posted = m.posted

theorem processForReassembly_step {orig : Bundle} (hsize : orig.payload.length < 2 ^ 64)
    {m : FragmentManager} {past : List Bundle} {f : Bundle} (h : HoldsWaiting orig m past)
    (hf : FragmentOf orig f) :
    ∃ m', processForReassembly m f = .ok m' ∧ HoldsWaiting orig m' (past ++ [f]) ∧
      Posts orig (waiting orig past ++ [f]) m m' := by
  obtain ⟨s, htake, hg⟩ := (h.stateFor hf).take hf
  unfold processForReassembly Posts HoldsWaiting
  rw [if_pos hf.isFragment, htake, waiting_append]
  simp only [bind, Except.bind, hg.checkCompleted hsize, hf.hashKey_eq, decide_eq_true_eq]
  by_cases hc : Covers ((waiting orig past ++ [f]).map Bundle.span) 0 orig.payload.length
  · simp only [if_pos hc]
    refine ⟨_, rfl, ?_, s.bundle, rfl, hg.payload_eq hc⟩
    simp
  · simp only [if_neg hc]
    refine ⟨_, rfl, ?_, rfl⟩
    simpa using hg

/-- Up to the first time the fragments cover the payload, all that were received wait. -/
theorem waiting_eq_self {orig : Bundle} {fragments : List Bundle}
    (h : ∀ l, l ≠ [] → l <+: fragments → ¬ Covers (l.map Bundle.span) 0 orig.payload.length) :
    waiting orig fragments = fragments := by
  induction fragments using List.reverseRecOn with
  | nil => rfl
  | append_singleton l f ih =>
    rw [waiting_append, ih fun k hk hpre => h k hk (hpre.trans (List.prefix_append l [f])), if_neg]
    exact h (l ++ [f]) (by simp) List.prefix_rfl

/-- In every run over fragments of `orig`, in any order and with any overlaps, a step posts the
bundle exactly if the fragments that wait, with the one received, cover the original payload,
and then the payload is the original one. Those that wait are all that were received, as long
as they did not cover the payload before. -/
theorem processForReassembly_run {orig : Bundle} (hsize : orig.payload.length < 2 ^ 64)
    {past : List Bundle} {f : Bundle} (hpast : ∀ g ∈ past, FragmentOf orig g)
    (hf : FragmentOf orig f) :
    (∃ m m', run processForReassembly {} past = .ok m ∧ processForReassembly m f = .ok m' ∧
      Posts orig (waiting orig past ++ [f]) m m') ∧
    ((∀ l, l ≠ [] → l <+: past → ¬ Covers (l.map Bundle.span) 0 orig.payload.length) →
      waiting orig past = past) := by
  refine ⟨?_, waiting_eq_self⟩
  obtain ⟨m, hrun, hm⟩ := run_invariant (HoldsWaiting orig)
    (fun m past g hm hg => by
      obtain ⟨m', hstep, hw, -⟩ := processForReassembly_step hsize hm hg
      exact ⟨m', hstep, hw⟩)
    (show HoldsWaiting orig {} [] from rfl) (Meets.of_forall _ hpast)
  obtain ⟨m', hstep, -, hposts⟩ := processForReassembly_step hsize hm hf
  exact ⟨m, m', hrun, hstep, hposts⟩

/-- A bundle with a payload of three bytes. -/
def abcBundle : Bundle := { source := "ipn:1.1", dest := "ipn:2.1", payload := [97, 98, 99] }

/-- Its fragment of the `len` bytes from `off` on. -/
def abcFragment (off len : ℕ) : Bundle :=
  { abcBundle with isFragment := true, origLength := 3, fragOffset := off,
                   payload := slice abcBundle.payload off len }

theorem abcFragment_of {off len : ℕ} (h : off + len ≤ 3) :
    FragmentOf abcBundle (abcFragment off len) where
  isFragment := rfl
  hashKey_eq := rfl
  origLength_eq := rfl
  span_le := by
    change off + (slice abcBundle.payload off len).length ≤ 3
    rw [length_slice_of_le h]
    exact h
  payload_eq := by
    change slice _ _ _ = slice _ off (slice abcBundle.payload off len).length
    rw [length_slice_of_le h]

/-- Overlapping fragments out of order, the last of which completes the bundle. -/
theorem processForReassembly_run_overlap :
    (∃ m m', run processForReassembly {} [abcFragment 2 1, abcFragment 0 1, abcFragment 2 1] = .ok m ∧
      processForReassembly m (abcFragment 0 3) = .ok m' ∧
      Posts abcBundle (waiting abcBundle [abcFragment 2 1, abcFragment 0 1, abcFragment 2 1] ++
        [abcFragment 0 3]) m m') ∧
    ((∀ l, l ≠ [] → l <+: [abcFragment 2 1, abcFragment 0 1, abcFragment 2 1] →
      ¬ Covers (l.map Bundle.span) 0 abcBundle.payload.length) →
      waiting abcBundle [abcFragment 2 1, abcFragment 0 1, abcFragment 2 1] =
        [abcFragment 2 1, abcFragment 0 1, abcFragment 2 1]) :=
  processForReassembly_run (by decide)
    (by
      intro g hg
      simp only [List.mem_cons, List.not_mem_nil, or_false] at hg
      rcases hg with rfl | rfl | rfl
      · exact abcFragment_of (by decide)
      · exact abcFragment_of (by decide)
      · exact abcFragment_of (by decide))
    (abcFragment_of (by decide))

/-- The state is deleted with the completed bundle: a duplicate that comes after it does not
complete the bundle again, although all that was received covers the payload. -/
theorem processForReassembly_forgets :
    (∀ g ∈ [abcFragment 0 3, abcFragment 0 1], FragmentOf abcBundle g) ∧
      Covers ([abcFragment 0 3, abcFragment 0 1].map Bundle.span) 0 abcBundle.payload.length ∧
      ∃ m, run processForReassembly {} [abcFragment 0 3] = .ok m ∧
        ∃ m', processForReassembly m (abcFragment 0 1) = .ok m' ∧ m'.posted = m.posted := by
  refine ⟨?_, by decide, by decide +kernel⟩
  intro g hg
  simp only [List.mem_cons, List.not_mem_nil, or_false] at hg
  rcases hg with rfl | rfl
  · exact abcFragment_of (by decide)
  · exact abcFragment_of (by decide)

end Dtnme.Bundling
