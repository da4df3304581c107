import Dtnme.Bundling.Reassembly

/-! # What received fragments can do to the daemon

The first fragment of a state fixes the length of the reassembled bundle. A later one that ends
behind it fails an assertion, and one that gives another original length ends the daemon when the
sweep gets to it. The sweep stops behind the first hole. The bytes of the payload are left out here:
an end that wraps passes the assertions, the file refuses the offset, and what is then written
somewhere else changes no length.
-/

namespace Dtnme.Bundling
open Library

/-! ## The code without the bytes -/

/-- The length of the bundle of a `FragmentState`, and its list. -/
structure ReassemblyState where
  totalLen : ℕ
  fragments : List Bundle := []
  deriving DecidableEq

/-- `add_fragment`: a bundle that is on the list already is not added again. -/
def ReassemblyState.addFragment (s : ReassemblyState) (fragment : Bundle) : ReassemblyState :=
  if s.fragments.any (·.bundleid == fragment.bundleid) then s
  else { s with fragments := insertSorted fragment s.fragments }

abbrev ReassemblyTable := OrdMap String ReassemblyState

/-- The state that a fragment is added to. -/
def stateOf (t : ReassemblyTable) (fragment : Bundle) : ReassemblyState :=
  (t.find? fragment.hashKey).getD { totalLen := fragment.origLength }

/-- `process_for_reassembly`. -/
def processFragment (t : ReassemblyTable) (fragment : Bundle) : Except Fault ReassemblyTable :=
  if fragment.isFragment then
    let state := (stateOf t fragment).addFragment fragment
    let fraglen := fragment.payload.length
    if u64 (fragment.fragOffset + fraglen) ≤ state.totalLen ∧ u64 (0 + fraglen) ≤ fraglen then do
      let completed ← sweep state.totalLen 0 state.fragments
      .ok (if completed then t.erase fragment.hashKey else t.insert fragment.hashKey state)
    else .error .assertFailed
  else .error .assertFailed

/-- `FragmentManager::delete_fragment`. -/
def deleteFragment (t : ReassemblyTable) (fragment : Bundle) : Except Fault ReassemblyTable :=
  if fragment.isFragment then
    match t.find? fragment.hashKey with
    | none => .ok t
    | some state =>
      if state.fragments.any (·.bundleid == fragment.bundleid) then
        let fragments := state.fragments.eraseP (·.bundleid == fragment.bundleid)
        if fragments.isEmpty then .ok (t.erase fragment.hashKey)
        else .ok (t.insert fragment.hashKey { state with fragments })
      else .ok t
  else .error .assertFailed

inductive FragmentEvent
  | process (fragment : Bundle)
  | delete (fragment : Bundle)
  deriving DecidableEq

def FragmentEvent.fragment : FragmentEvent → Bundle
  | process f => f
  | delete f => f

def fragmentStep (t : ReassemblyTable) : FragmentEvent → Except Fault ReassemblyTable
  | .process f => processFragment t f
  | .delete f => deleteFragment t f

/-! ## The code with the bytes -/

/-- The lengths and the lists of the fragment table. -/
def FragmentManager.lengths (m : FragmentManager) : ReassemblyTable :=
  m.fragmentTable.mapVal fun _ s => { totalLen := s.bundle.payload.length, fragments := s.fragments }

theorem stateOf_lengths (m : FragmentManager) (f : Bundle) :
    stateOf m.lengths f =
      { totalLen := (m.stateFor f).bundle.payload.length, fragments := (m.stateFor f).fragments } := by
  unfold stateOf FragmentManager.lengths FragmentManager.stateFor
  rw [OrdMap.find?_mapVal]
  cases m.fragmentTable.find? f.hashKey with
  | none => simp [newState]
  | some s => rfl

/-- A fragment whose end does not wrap is processed alike with the bytes and without them. -/
theorem processForReassembly_lengths {m : FragmentManager} {f : Bundle}
    (hwrap : f.fragOffset + f.payload.length < 2 ^ 64)
    (hnew : ∀ g ∈ (m.stateFor f).fragments, g.bundleid ≠ f.bundleid) :
    (processForReassembly m f).map FragmentManager.lengths = processFragment m.lengths f := by
  have hlisted : (m.stateFor f).fragments.any (·.bundleid == f.bundleid) = false := by
    simpa using hnew
  unfold processForReassembly processFragment
  rw [stateOf_lengths, ReassemblyState.addFragment]
  simp only [hlisted, Bool.false_eq_true, if_false]
  cases f.isFragment with
  | false => rfl
  | true =>
    rw [u64_of_lt hwrap, u64_of_lt (by omega)]
    by_cases hend : f.fragOffset + f.payload.length ≤ (m.stateFor f).bundle.payload.length
    · have hwrite : writeData (m.stateFor f).bundle.payload f.payload 0 f.payload.length
          f.fragOffset = .ok (overwrite (m.stateFor f).bundle.payload f.fragOffset f.payload) := by
        rw [writeData_ok hend (Nat.zero_add f.payload.length).le, slice_all]
      have hlength := length_overwrite hend
      simp only [FragmentState.take, hwrite, FragmentState.checkCompleted, hlength, hend, bind,
        Except.bind, if_true, Nat.zero_add, le_refl, and_self]
      cases sweep (m.stateFor f).bundle.payload.length 0
          (insertSorted f (m.stateFor f).fragments) with
      | error e => rfl
      | ok completed =>
        cases completed
        · simp only [Bool.false_eq_true, if_false, Except.map, Except.ok.injEq]
          ext k s
          by_cases hk : k = f.hashKey <;> simp [FragmentManager.lengths, hk, hlength]
        · simp only [if_true, Except.map, Except.ok.injEq]
          ext k s
          by_cases hk : k = f.hashKey <;> simp [FragmentManager.lengths, hk]
    · have hwrite : writeData (m.stateFor f).bundle.payload f.payload 0 f.payload.length
          f.fragOffset = .error .assertFailed := by
        rw [writeData, u64_of_lt hwrap, if_neg (fun h => hend h.1)]
      simp [FragmentState.take, hwrite, hend, bind, Except.bind, Except.map]

/-! ## The fragments that the sweep looks at -/

/-- The bytes without a hole after one more fragment, as a word. -/
def advance (done : ℕ) (f : Bundle) : ℕ :=
  if done = f.fragOffset then u64 (done + f.payload.length)
  else max done (u64 (f.fragOffset + f.payload.length))

/-- The fragments up to the first one behind a hole. -/
def reached : ℕ → List Bundle → List Bundle
  | _, [] => []
  | done, f :: l => f :: if done < f.fragOffset then [] else reached (advance done f) l

/-- A fragment that is processed ends inside the reassembled bundle, and those that the sweep looks at
give the length of this bundle as the original one. -/
def FragmentFits (t : ReassemblyTable) : FragmentEvent → Prop
  | .process f =>
    u64 (f.fragOffset + f.payload.length) ≤ (stateOf t f).totalLen ∧
      ∀ g ∈ reached 0 ((stateOf t f).addFragment f).fragments, g.origLength = (stateOf t f).totalLen
  | .delete _ => True

instance (t : ReassemblyTable) (e : FragmentEvent) : Decidable (FragmentFits t e) := by
  unfold FragmentFits
  cases e <;> infer_instance

theorem u64_overlap {done offset len : ℕ} (hdone : done < 2 ^ 64) (hlt : offset < done) :
    u64 (done + u64Sub len (u64Sub done offset)) = u64 (offset + len) := by
  rw [u64Sub_of_le hdone hlt.le]
  unfold u64Sub u64
  omega

theorem sweep_isOk {total done : ℕ} {l : List Bundle} (hl : ∀ f ∈ l, f.isFragment = true)
    (hdone : done < 2 ^ 64) :
    (∃ b, sweep total done l = .ok b) ↔ ∀ g ∈ reached done l, g.origLength = total := by
  induction l generalizing done with
  | nil => simp [sweep, reached]
  | cons f l ih =>
    have hf := hl f List.mem_cons_self
    have hrest := fun g hg => hl g (List.mem_cons_of_mem f hg)
    by_cases horig : f.origLength = total
    · simp only [sweep, hf, horig, Bool.true_eq_false, if_false, ne_eq, not_true_eq_false, reached,
        List.forall_mem_cons, true_and]
      by_cases hfit : done = f.fragOffset
      · rw [if_pos hfit, if_neg hfit.not_lt, advance, if_pos hfit, ih hrest (u64_lt _)]
      · rw [if_neg hfit]
        by_cases hhole : done < f.fragOffset
        · simp [hhole]
        · rw [if_neg hhole, if_neg hhole, advance, if_neg hfit]
          by_cases hred : u64 (f.fragOffset + f.payload.length) < done
          · rw [if_pos hred, max_eq_left hred.le, ih hrest hdone]
          · rw [if_neg hred, max_eq_right (by omega), u64_overlap hdone (by omega),
              ih hrest (u64_lt _)]
    · refine iff_of_false ?_ ?_
      · rintro ⟨b, hb⟩
        simp [sweep, hf, horig] at hb
      · intro h
        exact horig (h f (by simp [reached]))

/-! ## Runs -/

/-- Only fragments are listed. -/
def Fragments (t : ReassemblyTable) : Prop :=
  ∀ k s, t.find? k = some s → ∀ f ∈ s.fragments, f.isFragment = true

theorem addFragment_fragments {t : ReassemblyTable} (h : Fragments t) {f : Bundle}
    (hf : f.isFragment = true) :
    ∀ g ∈ ((stateOf t f).addFragment f).fragments, g.isFragment = true := by
  have hstate : ∀ g ∈ (stateOf t f).fragments, g.isFragment = true := by
    unfold stateOf
    cases hfind : t.find? f.hashKey with
    | none => simp
    | some s => exact h _ s hfind
  intro g hg
  unfold ReassemblyState.addFragment at hg
  split at hg
  · exact hstate g hg
  · rcases List.mem_cons.mp ((insertSorted_perm f _).subset hg) with rfl | hg
    · exact hf
    · exact hstate g hg

theorem Fragments.insert {t : ReassemblyTable} (h : Fragments t) (k : String) {s : ReassemblyState}
    (hs : ∀ f ∈ s.fragments, f.isFragment = true) : Fragments (t.insert k s) := by
  intro j s' hfind
  rw [OrdMap.find?_insert] at hfind
  split at hfind
  · cases hfind
    exact hs
  · exact h j s' hfind

theorem Fragments.erase {t : ReassemblyTable} (h : Fragments t) (k : String) :
    Fragments (t.erase k) := by
  intro j s hfind
  rw [OrdMap.find?_erase] at hfind
  split at hfind
  · cases hfind
  · exact h j s hfind

/-- A fragment is processed to the end exactly if it fits. -/
theorem processFragment_isOk {t : ReassemblyTable} (h : Fragments t) {f : Bundle}
    (hf : f.isFragment = true) :
    (∃ t', processFragment t f = .ok t') ↔ FragmentFits t (.process f) := by
  have htotal : ((stateOf t f).addFragment f).totalLen = (stateOf t f).totalLen := by
    unfold ReassemblyState.addFragment
    split <;> rfl
  have hsrc : u64 (0 + f.payload.length) ≤ f.payload.length := by
    unfold u64
    rw [Nat.zero_add]
    exact Nat.mod_le _ _
  have hsweep : (∃ b, sweep (stateOf t f).totalLen 0 ((stateOf t f).addFragment f).fragments =
      .ok b) ↔ _ := sweep_isOk (addFragment_fragments h hf) (show 0 < 2 ^ 64 by decide)
  rw [processFragment, if_pos hf, FragmentFits, ← hsweep]
  dsimp only
  rw [htotal]
  by_cases hend : u64 (f.fragOffset + f.payload.length) ≤ (stateOf t f).totalLen
  · rw [if_pos ⟨hend, hsrc⟩]
    cases sweep (stateOf t f).totalLen 0 ((stateOf t f).addFragment f).fragments with
    | error e => simp [bind, Except.bind]
    | ok completed => simp [bind, Except.bind, hend]
  · rw [if_neg fun hboth => hend hboth.1]
    simp [hend]

theorem processFragment_fragments {t t' : ReassemblyTable} (h : Fragments t) {f : Bundle}
    (hstep : processFragment t f = .ok t') : Fragments t' := by
  unfold processFragment at hstep
  split at hstep
  case isFalse => cases hstep
  case isTrue hf =>
    dsimp only at hstep
    split at hstep
    case isFalse => cases hstep
    case isTrue =>
      cases hsweep : sweep ((stateOf t f).addFragment f).totalLen 0
          ((stateOf t f).addFragment f).fragments with
      | error e => simp [hsweep, bind, Except.bind] at hstep
      | ok completed =>
        simp only [hsweep, bind, Except.bind, Except.ok.injEq] at hstep
        subst hstep
        split
        · exact h.erase _
        · exact h.insert _ (addFragment_fragments h hf)

/-- A fragment is deleted without harm. -/
theorem deleteFragment_spec {t : ReassemblyTable} (h : Fragments t) {f : Bundle}
    (hf : f.isFragment = true) : ∃ t', deleteFragment t f = .ok t' ∧ Fragments t' := by
  rw [deleteFragment, if_pos hf]
  cases hfind : t.find? f.hashKey with
  | none => exact ⟨t, rfl, h⟩
  | some s =>
    dsimp only
    split
    · split
      · exact ⟨_, rfl, h.erase _⟩
      · refine ⟨_, rfl, h.insert _ ?_⟩
        intro g hg
        exact h _ s hfind g (List.mem_of_mem_eraseP hg)
    · exact ⟨t, rfl, h⟩

theorem fragmentStep_isOk (t : ReassemblyTable) (e : FragmentEvent) (h : Fragments t)
    (he : e.fragment.isFragment = true) : (∃ t', fragmentStep t e = .ok t') ↔ FragmentFits t e := by
  cases e with
  | process f => exact processFragment_isOk h he
  | delete f =>
    obtain ⟨t', hstep, -⟩ := deleteFragment_spec h he
    exact iff_of_true ⟨t', hstep⟩ trivial

theorem fragmentStep_fragments (t : ReassemblyTable) (e : FragmentEvent) (t' : ReassemblyTable)
    (h : Fragments t) (he : e.fragment.isFragment = true) (hstep : fragmentStep t e = .ok t') :
    Fragments t' := by
  cases e with
  | process f => exact processFragment_fragments h hstep
  | delete f =>
    obtain ⟨t'', hstep', hfrags⟩ := deleteFragment_spec h he
    cases hstep.symm.trans hstep'
    exact hfrags

/-- Fragments end the daemon in no run whose fragments fit, and in every other. -/
theorem reassembly_safe_iff (events : List FragmentEvent)
    (hfrag : ∀ e ∈ events, e.fragment.isFragment = true) :
    (∃ t, run fragmentStep .empty events = .ok t) ↔ Meets fragmentStep FragmentFits .empty events := by
  apply run_isOk_iff fragmentStep_isOk fragmentStep_fragments ?_ hfrag
  intro k s hfind
  cases hfind

/-- A fragment of ten bytes in all. -/
def fragmentAt (bundleid offset origLength : ℕ) : Bundle :=
  { bundleid := bundleid, isFragment := true, fragOffset := offset, origLength := origLength,
    payload := [1, 2, 3, 4] }

theorem reassembly_safe_deleted :
    ∃ t, run fragmentStep .empty [.process (fragmentAt 1 0 10), .process (fragmentAt 2 6 10),
      .delete (fragmentAt 1 0 10), .process (fragmentAt 3 3 10)] = .ok t :=
  (reassembly_safe_iff _ (by decide)).mpr (by decide +kernel)

/-- Another original length, and an end behind that of the bundle. -/
theorem fragments_end_the_daemon :
    run fragmentStep .empty [.process (fragmentAt 1 0 10), .process (fragmentAt 2 4 12)] =
      .error .panic ∧
    run fragmentStep .empty [.process (fragmentAt 1 0 10), .process (fragmentAt 2 8 12)] =
      .error .assertFailed := by
  constructor <;> decide +kernel

/-! ## Runs with the bytes -/

theorem take_fragments {s t : FragmentState} {f : Bundle} (h : s.take f = .ok t) :
    t.fragments = insertSorted f s.fragments := by
  unfold FragmentState.take at h
  cases hwrite : writeData s.bundle.payload f.payload 0 f.payload.length f.fragOffset with
  | error e => simp [hwrite, bind, Except.bind] at h
  | ok payload =>
    simp only [hwrite, bind, Except.bind] at h
    cases h
    rfl

theorem mem_stateFor {m : FragmentManager} {f g : Bundle} (hg : g ∈ (m.stateFor f).fragments) :
    ∃ k s, m.fragmentTable.find? k = some s ∧ g ∈ s.fragments := by
  unfold FragmentManager.stateFor at hg
  cases hfind : m.fragmentTable.find? f.hashKey with
  | none => simp [hfind, newState] at hg
  | some s =>
    rw [hfind] at hg
    exact ⟨_, s, hfind, hg⟩

/-- What is listed after a step is the fragment, or was listed before. -/
theorem processForReassembly_listed {m m' : FragmentManager} {f g : Bundle} {k : String}
    {s : FragmentState} (h : processForReassembly m f = .ok m')
    (hk : m'.fragmentTable.find? k = some s) (hg : g ∈ s.fragments) :
    g = f ∨ ∃ k' s', m.fragmentTable.find? k' = some s' ∧ g ∈ s'.fragments := by
  unfold processForReassembly at h
  split at h
  case isFalse => cases h
  case isTrue =>
    cases htake : (m.stateFor f).take f with
    | error e => simp [htake, bind, Except.bind] at h
    | ok state =>
      cases hdone : state.checkCompleted with
      | error e => simp [htake, hdone, bind, Except.bind] at h
      | ok completed =>
        simp only [htake, hdone, bind, Except.bind] at h
        split at h
        · cases h
          rw [OrdMap.find?_erase] at hk
          split at hk
          · cases hk
          · exact Or.inr ⟨k, s, hk, hg⟩
        · cases h
          rw [OrdMap.find?_insert] at hk
          split at hk
          · cases hk
            rw [take_fragments htake] at hg
            rcases List.mem_cons.mp ((insertSorted_perm f _).subset hg) with rfl | hg
            · exact Or.inl rfl
            · exact Or.inr (mem_stateFor hg)
          · exact Or.inr ⟨k, s, hk, hg⟩

/-- From a table that lists none of the fragments to come. -/
theorem run_lengths {l : List Bundle} {m : FragmentManager}
    (hwrap : ∀ f ∈ l, f.fragOffset + f.payload.length < 2 ^ 64) (hids : (l.map (·.bundleid)).Nodup)
    (hnew : ∀ f ∈ l, ∀ k s, m.fragmentTable.find? k = some s →
      ∀ g ∈ s.fragments, g.bundleid ≠ f.bundleid) :
    (run processForReassembly m l).map FragmentManager.lengths = run processFragment m.lengths l := by
  induction l generalizing m with
  | nil => rfl
  | cons f l ih =>
    have hfresh : ∀ g ∈ (m.stateFor f).fragments, g.bundleid ≠ f.bundleid := by
      intro g hg
      obtain ⟨k, s, hk, hs⟩ := mem_stateFor hg
      exact hnew f List.mem_cons_self k s hk g hs
    have hstep := processForReassembly_lengths (hwrap f List.mem_cons_self) hfresh
    rw [run, run, ← hstep]
    cases hm : processForReassembly m f with
    | error e => rfl
    | ok m' =>
      rw [List.map_cons, List.nodup_cons] at hids
      refine ih (fun g hg => hwrap g (List.mem_cons_of_mem f hg)) hids.2 fun e he k s hk g hg => ?_
      rcases processForReassembly_listed hm hk hg with rfl | ⟨k', s', hk', hg'⟩
      · intro heq
        exact hids.1 (List.mem_map.mpr ⟨e, he, heq.symm⟩)
      · exact hnew e (List.mem_cons_of_mem f he) k' s' hk' g hg'

/-- Fragments whose ends do not wrap, each received once, are processed alike with the bytes and
without them: the daemon ends with both or with none, and both list the same. -/
theorem processForReassembly_run_lengths (l : List Bundle)
    (hwrap : ∀ f ∈ l, f.fragOffset + f.payload.length < 2 ^ 64) (hids : (l.map (·.bundleid)).Nodup) :
    (run processForReassembly {} l).map FragmentManager.lengths = run processFragment .empty l := by
  refine run_lengths hwrap hids fun f _ k s hk => ?_
  cases hk

theorem processForReassembly_run_lengths_three :
    (run processForReassembly {} [fragmentAt 1 0 10, fragmentAt 2 6 10, fragmentAt 3 3 10]).map
        FragmentManager.lengths =
      run processFragment .empty [fragmentAt 1 0 10, fragmentAt 2 6 10, fragmentAt 3 3 10] :=
  processForReassembly_run_lengths _ (by decide) (by decide)

end Dtnme.Bundling
