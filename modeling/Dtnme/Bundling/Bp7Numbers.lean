import Dtnme.Bundling.Bp7Prepare

/-! # The numbers of outgoing blocks

A new block gets the highest received number and the length of the list. That is above every number
in use, as long as it does not wrap.
-/

namespace Dtnme.Bundling.Bp7
open Library

/-- The primary block first, the payload last, every other block that came in and is sent along once
and with its number, and no number twice. -/
structure WellFormedList (b : Outgoing) (xmit : List XmitBlock) : Prop where
  first : ∃ x rest, xmit = x :: rest ∧ x.owner = .primary
  last : ∃ front x, xmit = front ++ [x] ∧ x.owner = .payload
  received : ∀ r ∈ b.recvBlocks, r.owner.IsExtension → forwards b .received r.owner (some r) →
    (xmit.filter fun x => x.source = some r).map (·.blockNumber) = [r.blockNumber]
  distinct : (xmit.map (·.blockNumber)).Nodup

/-- No number of an added block wraps to that of a block that came in and is sent along. -/
def NumbersFree (b : Outgoing) : Prop :=
  ∀ j < (added b ((kept b b.recvBlocks).map passedOn) extensionTypes).length,
    ∀ r ∈ kept b b.recvBlocks,
      b.highestRcvdBlockNumber + (kept b b.recvBlocks).length + j ≠ r.blockNumber + 2 ^ 64

section
variable {b : Outgoing}

/-! ## Numbers that are counted on -/

theorem mem_inserted_numbers {n m : ℕ} {adds : List (Processor × Option SourceBlock)} :
    m ∈ (inserted b n adds).map (·.blockNumber) ↔
      ∃ j < adds.length, m = u64 (b.highestRcvdBlockNumber + n + j) := by
  induction adds generalizing n with
  | nil => simp [inserted]
  | cons add adds ih =>
    rw [inserted, List.map_append, List.mem_append, ih]
    simp only [List.map_cons, List.map_nil, List.mem_singleton, List.length_cons]
    constructor
    · rintro (⟨j, hj, rfl⟩ | rfl)
      · exact ⟨j + 1, by omega, by congr 1; omega⟩
      · exact ⟨0, by omega, by rw [Nat.add_zero]⟩
    · rintro ⟨j, hj, rfl⟩
      cases j with
      | zero => exact .inr (by rw [Nat.add_zero])
      | succ j => exact .inl ⟨j, by omega, by congr 1; omega⟩

theorem u64_add_inj {a i j : ℕ} (hi : i < 2 ^ 64) (hj : j < 2 ^ 64) (h : u64 (a + i) = u64 (a + j)) :
    i = j := by
  unfold u64 at h
  omega

theorem inserted_numbers_nodup {n : ℕ} {adds : List (Processor × Option SourceBlock)}
    (hsize : adds.length < 2 ^ 64) : ((inserted b n adds).map (·.blockNumber)).Nodup := by
  induction adds generalizing n with
  | nil => exact .nil
  | cons add adds ih =>
    rw [List.length_cons] at hsize
    rw [inserted, List.map_append, List.nodup_append]
    refine ⟨ih (by omega), List.nodup_singleton _, ?_⟩
    rintro m hm m' hm' rfl
    obtain ⟨j, hj, rfl⟩ := mem_inserted_numbers.mp hm
    rw [List.map_cons, List.map_nil, List.mem_singleton] at hm'
    have hwrap : b.highestRcvdBlockNumber + (n + 1) + j = b.highestRcvdBlockNumber + n + (j + 1) := by
      omega
    rw [hwrap] at hm'
    have hzero := u64_add_inj (i := j + 1) (j := 0) (by omega) (by omega) hm'
    omega

theorem length_added (xmit : List XmitBlock) : (added b xmit extensionTypes).length ≤ 5 := by
  unfold added
  rw [List.length_map]
  exact List.length_filter_le _ _

theorem source_inserted_added {n : ℕ} {xmit : List XmitBlock} {x : XmitBlock}
    (hx : x ∈ inserted b n (added b xmit extensionTypes)) : x.source = none := by
  obtain ⟨add, hadd, -, hsource⟩ := owner_inserted b hx
  obtain ⟨i, -, rfl⟩ := List.mem_map.mp hadd
  exact hsource

/-! ## The highest number -/

theorem le_setHighest (highest n : ℕ) :
    highest ≤ setHighestRcvdBlockNumber highest n ∧ n ≤ setHighestRcvdBlockNumber highest n := by
  unfold setHighestRcvdBlockNumber
  split_ifs <;> omega

/-- Up to the blocks consumed so far. -/
theorem highestRcvd_foldl {recv : List SourceBlock} (highest : ℕ) :
    let result := recv.foldl (fun highest r =>
      if r.owner.IsExtension then setHighestRcvdBlockNumber highest r.blockNumber else highest) highest
    highest ≤ result ∧ (∀ r ∈ recv, r.owner.IsExtension → r.blockNumber ≤ result) ∧
      ∀ m, highest < m → (∀ r ∈ recv, r.blockNumber < m) → result < m := by
  induction recv generalizing highest with
  | nil => exact ⟨le_rfl, by simp, fun m hm _ => hm⟩
  | cons r recv ih =>
    rw [List.foldl_cons]
    obtain ⟨hle, hall, hlt⟩ := ih (if r.owner.IsExtension then
      setHighestRcvdBlockNumber highest r.blockNumber else highest)
    have hstep := le_setHighest highest r.blockNumber
    refine ⟨le_trans ?_ hle, ?_, ?_⟩
    · split_ifs
      · exact hstep.1
      · exact le_rfl
    · intro s hs hext
      rcases List.mem_cons.mp hs with rfl | hs
      · refine le_trans ?_ hle
        rw [if_pos hext]
        exact hstep.2
      · exact hall s hs hext
    · intro m hm hrecv
      apply hlt m
      · have hr := hrecv r List.mem_cons_self
        unfold setHighestRcvdBlockNumber
        split_ifs <;> omega
      · exact fun s hs => hrecv s (List.mem_cons_of_mem r hs)

/-! ## Bundles that came in -/

section
variable {first payload : SourceBlock} {exts : List SourceBlock}

theorem Received.kept_eq (h : Received b first exts payload) :
    kept b b.recvBlocks = first :: kept b (exts ++ [payload]) := by
  rw [h.recv]
  simp [kept, forwards, h.first.1]

theorem Received.number_le (h : Received b first exts payload) {r : SourceBlock}
    (hr : r ∈ b.recvBlocks) : r.blockNumber ≤ b.highestRcvdBlockNumber := by
  obtain ⟨hone, hall, -⟩ := @highestRcvd_foldl b.recvBlocks 1
  rw [h.highest, highestRcvd]
  rw [h.recv, List.mem_cons, List.mem_append, List.mem_singleton] at hr
  rcases hr with rfl | hr | rfl
  · have hzero := h.first.2
    omega
  · exact hall r (by rw [h.recv]; simp [hr]) (h.exts r hr)
  · have hnumber := h.payload.2
    omega

theorem Received.highest_lt (h : Received b first exts payload) :
    b.highestRcvdBlockNumber < 2 ^ 64 - 256 := by
  obtain ⟨-, -, hlt⟩ := @highestRcvd_foldl b.recvBlocks 1
  rw [h.highest]
  exact hlt _ (by norm_num) h.below

/-- The numbers of the list. -/
theorem receivedBlocks_numbers (h : Received b first exts payload) :
    (receivedBlocks b first (exts ++ [payload])).map (·.blockNumber) = first.blockNumber ::
      ((inserted b (kept b b.recvBlocks).length (added b ((kept b b.recvBlocks).map passedOn)
        extensionTypes)).map (·.blockNumber) ++ (kept b (exts ++ [payload])).map (·.blockNumber)) := by
  have hpassed (l : List SourceBlock) : (l.map passedOn).map (·.blockNumber) = l.map (·.blockNumber) := by
    rw [List.map_map]
    rfl
  rw [receivedBlocks, h.kept_eq, List.map_cons, List.map_append, hpassed, List.length_cons,
    List.length_map, List.map_cons, List.length_cons]
  rfl

/-- The numbers of the blocks that came in are distinct, and so are the new ones. -/
theorem received_distinct_iff (h : Received b first exts payload) :
    ((receivedBlocks b first (exts ++ [payload])).map (·.blockNumber)).Nodup ↔ NumbersFree b := by
  have hsub : (kept b b.recvBlocks).Sublist b.recvBlocks := List.filter_sublist
  have hkept : ((kept b b.recvBlocks).map (·.blockNumber)).Nodup :=
    h.numbers.sublist (hsub.map _)
  have hlen := hsub.length_le
  have hsize := h.size
  have hhighest := h.highest_lt
  have hadded := length_added (b := b) ((kept b b.recvBlocks).map passedOn)
  have hpos : 0 < (kept b b.recvBlocks).length := by rw [h.kept_eq]; simp
  have hnew : ((inserted b (kept b b.recvBlocks).length
      (added b ((kept b b.recvBlocks).map passedOn) extensionTypes)).map (·.blockNumber)).Nodup :=
    inserted_numbers_nodup (by omega)
  rw [receivedBlocks_numbers h]
  rw [h.kept_eq, List.map_cons, List.nodup_cons] at hkept
  rw [List.nodup_cons, List.nodup_append, List.mem_append, not_or]
  constructor
  · rintro ⟨⟨hfirst, -⟩, -, -, hdisjoint⟩ j hj r hr heq
    have hmem : r.blockNumber ∈ (inserted b (kept b b.recvBlocks).length
        (added b ((kept b b.recvBlocks).map passedOn) extensionTypes)).map (·.blockNumber) := by
      refine mem_inserted_numbers.mpr ⟨j, hj, ?_⟩
      have hr' := h.below r (hsub.subset hr)
      rw [heq]
      unfold u64
      omega
    rw [h.kept_eq, List.mem_cons] at hr
    rcases hr with rfl | hr
    · exact hfirst hmem
    · exact hdisjoint _ hmem _ (List.mem_map_of_mem hr) rfl
  · intro hfree
    have hapart : ∀ r ∈ kept b b.recvBlocks, r.blockNumber ∉ (inserted b (kept b b.recvBlocks).length
        (added b ((kept b b.recvBlocks).map passedOn) extensionTypes)).map (·.blockNumber) := by
      intro r hr hmem
      obtain ⟨j, hj, heq⟩ := mem_inserted_numbers.mp hmem
      have hle := h.number_le (hsub.subset hr)
      have hwrap := hfree j hj r hr
      unfold u64 at heq
      omega
    refine ⟨⟨hapart first (by rw [h.kept_eq]; exact List.mem_cons_self), hkept.1⟩, hnew, hkept.2, ?_⟩
    rintro m hm m' hm' rfl
    obtain ⟨r, hr, rfl⟩ := List.mem_map.mp hm'
    exact hapart r (by rw [h.kept_eq]; exact List.mem_cons_of_mem first hr) hm

theorem filter_source (b : Outgoing) (r : SourceBlock) {n : ℕ} (xmit : List XmitBlock)
    (l : List SourceBlock) : (inserted b n (added b xmit extensionTypes) ++ l.map passedOn).filter
      (fun x => x.source = some r) = (l.filter fun s => s = r).map passedOn := by
  have hnone : (inserted b n (added b xmit extensionTypes)).filter (fun x => x.source = some r) = [] := by
    rw [List.filter_eq_nil_iff]
    intro x hx
    simp [source_inserted_added hx]
  rw [List.filter_append, hnone, List.nil_append, List.filter_map]
  congr 1
  apply List.filter_congr
  intro s _
  simp [passedOn]

/-- A block that is sent along stands in the list once. -/
theorem receivedBlocks_source (h : Received b first exts payload) {r : SourceBlock}
    (hr : r ∈ b.recvBlocks) (hext : r.owner.IsExtension)
    (hforward : forwards b .received r.owner (some r) = true) :
    (receivedBlocks b first (exts ++ [payload])).filter (fun x => x.source = some r) = [passedOn r] := by
  have hne : first ≠ r := by
    rintro rfl
    exact hext.1 h.first.1
  have hnodup : (kept b b.recvBlocks).Nodup :=
    (h.numbers.of_map _).sublist List.filter_sublist
  have hmem : r ∈ kept b b.recvBlocks := List.mem_filter.mpr ⟨hr, hforward⟩
  rw [h.kept_eq] at hnodup hmem
  have hmem' : r ∈ kept b (exts ++ [payload]) := (List.mem_cons.mp hmem).resolve_left hne.symm
  have hone : (kept b (exts ++ [payload])).filter (fun s => s = r) = [r] := by
    have hcount := List.count_eq_one_of_mem hnodup.of_cons hmem'
    have hbeq : (kept b (exts ++ [payload])).filter (fun s => s = r) =
        (kept b (exts ++ [payload])).filter (· == r) := List.filter_congr fun s _ => rfl
    rw [hbeq, List.filter_beq, hcount, List.replicate_one]
  rw [receivedBlocks, List.filter_cons_of_neg (by simp [passedOn, hne]), filter_source, hone]
  rfl

theorem receivedBlocks_wellFormed (h : Received b first exts payload) (hfree : NumbersFree b) :
    WellFormedList b (receivedBlocks b first (exts ++ [payload])) where
  first := ⟨passedOn first, _, rfl, h.first.1⟩
  last := by
    have hkept : kept b (exts ++ [payload]) = kept b exts ++ [payload] := by
      simp [kept, forwards, h.payload.1]
    rw [receivedBlocks, hkept, List.map_append]
    rw [← List.append_assoc, ← List.cons_append]
    exact ⟨_, passedOn payload, rfl, h.payload.1⟩
  received := by
    intro r hr hext hforward
    rw [receivedBlocks_source h hr hext hforward]
    rfl
  distinct := (received_distinct_iff h).mpr hfree

end

/-! ## Bundles that were created here -/

theorem createdBlocks_wellFormed (h : Created b) : WellFormedList b (createdBlocks b) where
  first := ⟨{ owner := .primary, source := none }, _, rfl, rfl⟩
  last := by
    rw [createdBlocks]
    rw [← List.append_assoc, ← List.cons_append]
    exact ⟨_, { owner := .payload, source := none, blockNumber := 1 }, rfl, rfl⟩
  received := by
    intro r hr
    rw [h.recv] at hr
    simp at hr
  distinct := by
    have hsize := h.size
    have hsent : (sentApi b b.apiBlocks).length ≤ b.apiBlocks.length := by
      rw [sentApi, List.length_map]
      exact List.length_filter_le _ _
    set sent := sentApi b b.apiBlocks with hsentdef
    rw [createdBlocks, ← hsentdef]
    generalize hadds : added b _ extensionTypes = adds
    have hadded : adds.length ≤ 5 := hadds ▸ length_added _
    rw [List.length_cons, List.length_append, length_inserted, List.length_singleton, List.map_cons,
      List.map_append, List.map_append, List.nodup_cons, List.nodup_append, List.nodup_append]
    simp only [List.mem_append, List.map_cons, List.map_nil, List.mem_singleton, List.nodup_singleton]
    have hone := h.highest
    refine ⟨?_, inserted_numbers_nodup (by omega), ⟨inserted_numbers_nodup (by omega), trivial, ?_⟩, ?_⟩
    · rintro (hm | hm | hm)
      · obtain ⟨j, hj, heq⟩ := mem_inserted_numbers.mp hm
        unfold u64 at heq
        omega
      · obtain ⟨j, hj, heq⟩ := mem_inserted_numbers.mp hm
        unfold u64 at heq
        omega
      · exact absurd hm (by decide)
    · rintro m hm m' rfl rfl
      obtain ⟨j, hj, heq⟩ := mem_inserted_numbers.mp hm
      unfold u64 at heq
      omega
    · rintro m hm m' hm' rfl
      obtain ⟨j, hj, rfl⟩ := mem_inserted_numbers.mp hm
      rcases hm' with hm' | hm'
      · obtain ⟨i, hi, heq⟩ := mem_inserted_numbers.mp hm'
        unfold u64 at heq
        omega
      · unfold u64 at hm'
        omega

end

/-- The list is well formed exactly if no number wraps to one in use. -/
theorem prepareBlocks_wellFormed_iff (b : Outgoing)
    (h : Created b ∨ ∃ first exts payload, Received b first exts payload) :
    (∃ xmit, prepareBlocks b = .ok (some xmit) ∧ WellFormedList b xmit) ↔ NumbersFree b := by
  rcases h with h | ⟨first, exts, payload, h⟩
  · refine iff_of_true ⟨_, prepareBlocks_created h, createdBlocks_wellFormed h⟩ ?_
    intro j _ r hr
    rw [h.recv] at hr
    simp [kept] at hr
  · constructor
    · rintro ⟨xmit, hprepare, hwell⟩
      rw [prepareBlocks_received h] at hprepare
      cases hprepare
      exact (received_distinct_iff h).mp hwell.distinct
    · intro hfree
      exact ⟨_, prepareBlocks_received h, receivedBlocks_wellFormed h hfree⟩

/-- A bundle of this node for a group, with a bundle age block of the application. -/
def groupBundle : Outgoing where
  apiBlocks := [{ owner := .bundleAge, blockNumber := 0 }]
  hasBundleAgeBlock := true
  destIsImcScheme := true

/-- A bundle that came in with a previous node block and a block of no known type; the link asks for
a previous node block of this node, and the group for its own two. -/
def passingBundle : Outgoing where
  recvBlocks := [{ owner := .primary, blockNumber := 0 }, { owner := .previousNode, blockNumber := 5 },
    { owner := .unknown, blockNumber := 9 }, { owner := .payload, blockNumber := 1 }]
  highestRcvdBlockNumber := 9
  prevhopHdr := true
  destIsImcScheme := true

theorem passingBundle_received : Received passingBundle { owner := .primary, blockNumber := 0 }
    [{ owner := .previousNode, blockNumber := 5 }, { owner := .unknown, blockNumber := 9 }]
    { owner := .payload, blockNumber := 1 } where
  recv := rfl
  api := rfl
  first := ⟨rfl, rfl⟩
  exts := by decide
  payload := ⟨rfl, rfl⟩
  numbers := by decide
  below := by decide
  highest := by decide
  whole := rfl
  size := by decide

theorem prepareBlocks_wellFormed_group :
    (∃ xmit, prepareBlocks groupBundle = .ok (some xmit) ∧ WellFormedList groupBundle xmit) ∧
      ∃ xmit, prepareBlocks passingBundle = .ok (some xmit) ∧ WellFormedList passingBundle xmit :=
  ⟨(prepareBlocks_wellFormed_iff groupBundle (.inl ⟨rfl, by decide, rfl, by decide⟩)).mpr
      (by unfold NumbersFree; decide +kernel),
    (prepareBlocks_wellFormed_iff passingBundle (.inr ⟨_, _, _, passingBundle_received⟩)).mpr
      (by unfold NumbersFree; decide +kernel)⟩

/-- Blocks of no known type, numbered from 2 on but for the last. -/
def manyBlocks : List SourceBlock :=
  (List.range 255).map (fun i => { owner := .unknown, blockNumber := i + 2 }) ++
    [{ owner := .unknown, blockNumber := 2 ^ 64 - 257 }]

/-- 258 blocks came in; the link asks for a previous node block. -/
def manyBundle : Outgoing where
  recvBlocks := { owner := .primary, blockNumber := 0 } ::
    (manyBlocks ++ [{ owner := .payload, blockNumber := 1 }])
  highestRcvdBlockNumber := 2 ^ 64 - 257
  prevhopHdr := true

theorem manyBundle_received : Received manyBundle { owner := .primary, blockNumber := 0 } manyBlocks
    { owner := .payload, blockNumber := 1 } where
  recv := rfl
  api := rfl
  first := ⟨rfl, rfl⟩
  exts := by decide +kernel
  payload := ⟨rfl, rfl⟩
  numbers := by decide +kernel
  below := by decide +kernel
  highest := by decide +kernel
  whole := rfl
  size := by decide +kernel

/-- The number of the previous node block wraps to that of the payload. -/
theorem prepareBlocks_number_twice : (∃ first exts payload, Received manyBundle first exts payload) ∧
    ¬ ∃ xmit, prepareBlocks manyBundle = .ok (some xmit) ∧ WellFormedList manyBundle xmit := by
  refine ⟨⟨_, _, _, manyBundle_received⟩, ?_⟩
  rintro ⟨xmit, hprepare, hwell⟩
  rw [prepareBlocks_received manyBundle_received] at hprepare
  cases hprepare
  have hfree := (received_distinct_iff manyBundle_received).mp hwell.distinct
  exact hfree 0 (by decide +kernel) { owner := .payload, blockNumber := 1 } (by decide +kernel)
    (by decide +kernel)

end Dtnme.Bundling.Bp7
