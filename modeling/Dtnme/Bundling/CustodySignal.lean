import Dtnme.Bundling.CustodyIds

/-! # Processing an aggregate custody signal

A signal names ranges of custody ids of one destination. The bundle under each id is looked up and its
custody released, which takes it off the list that is being looked up. A range is left at the first
id that was not given out yet.
-/

namespace Dtnme.Bundling.Custody
open Library

/-! ## Processing -/

/-- The loop over the ids of an entry, from the index `idx` on, with the bundles released so far. -/
def fillLoop (dest : String) (lastCustodyId leftEdge : ℕ) :
    ℕ → ℕ → Custody × List ℕ → Except Fault (Custody × List ℕ)
  | 0, _, acc => .ok acc
  | n + 1, idx, (s, rel) =>
    let cid := u64 (leftEdge + idx)
    if lastCustodyId < cid then .ok (s, rel)
    else
      match s.find dest cid with
      | none => fillLoop dest lastCustodyId leftEdge n (idx + 1) (s, rel)
      | some b =>
        if !(s.bundles b).localCustody && !(s.bundles b).bibeCustody then
          fillLoop dest lastCustodyId leftEdge n (idx + 1) (s, rel)
        else do
          let s ← s.releaseCustody b
          fillLoop dest lastCustodyId leftEdge n (idx + 1) (s, rel ++ [b])

/-- The loop over the entries: left edges and lengths. -/
def entryLoop (dest : String) (lastCustodyId : ℕ) :
    List (ℕ × ℕ) → Custody × List ℕ → Except Fault (Custody × List ℕ)
  | [], acc => .ok acc
  | (leftEdge, lengthOfFill) :: entries, acc => do
    let acc ← fillLoop dest lastCustodyId leftEdge lengthOfFill 0 acc
    entryLoop dest lastCustodyId entries acc

/-- `process_acs`, with the bundles whose custody it releases in order. -/
def processAcs (s : Custody) (dest : String) (succeeded redundant : Bool)
    (acsEntryMap : OrdMap ℕ (ℕ × ℕ)) : Except Fault (Custody × List ℕ) :=
  if !(succeeded || redundant) then .ok (s, [])
  else if acsEntryMap.size = 0 then .ok (s, [])
  else entryLoop dest (s.lastCustodyId dest) acsEntryMap.values (s, [])

/-! ## What was released -/

/-- `t` is `s` after the custody of `rel` was released: the bundles in custody that are filed for the
destination under an id of `ids`. -/
structure Releases (s t : Custody) (dest : String) (ids : Set ℕ) (rel : List ℕ) : Prop where
  nodup : rel.Nodup
  mem : ∀ b, b ∈ rel ↔ ∃ k ∈ ids, s.find dest k = some b ∧ InCustody s b
  find : ∀ d k b, t.find d k = some b ↔ s.find d k = some b ∧ b ∉ rel
  kept : ∀ b, b ∉ rel → t.bundles b = s.bundles b
  out : ∀ b ∈ rel, ¬ InCustody t b ∧ (t.bundles b).custodyId = 0

theorem Releases.none (s : Custody) (dest : String) : Releases s s dest ∅ [] where
  nodup := List.nodup_nil
  mem _ := by simp
  find _ _ _ := by simp
  kept _ _ := rfl
  out := by simp

/-- An id under which there is nothing to release. -/
theorem Releases.skip {s t : Custody} {dest : String} {ids : Set ℕ} {rel : List ℕ}
    (h : Releases s t dest ids rel) {k : ℕ}
    (hk : ∀ b, t.find dest k = some b → ¬ InCustody t b) : Releases s t dest (Set.insert k ids) rel := by
  refine ⟨h.nodup, fun b => ?_, h.find, h.kept, h.out⟩
  rw [h.mem]
  constructor
  · exact fun ⟨j, hj, hb⟩ => ⟨j, Set.mem_insert_of_mem k hj, hb⟩
  · rintro ⟨j, rfl | hj, hb⟩
    · by_contra hne
      have hrel : b ∉ rel := fun hm => hne ((h.mem b).mp hm)
      apply hk b ((h.find dest j b).mpr ⟨hb.1, hrel⟩)
      rw [InCustody, h.kept b hrel]
      exact hb.2
    · exact ⟨j, hj, hb⟩

/-- Ids that are not on the list may be named too. -/
theorem Releases.of_absent {s t : Custody} {dest : String} {ids ids' : Set ℕ} {rel : List ℕ}
    (h : Releases s t dest ids rel) (hsub : ids ⊆ ids')
    (habs : ∀ k ∈ ids', k ∉ ids → s.find dest k = Option.none) : Releases s t dest ids' rel := by
  refine ⟨h.nodup, fun b => ?_, h.find, h.kept, h.out⟩
  rw [h.mem]
  constructor
  · exact fun ⟨k, hk, hb⟩ => ⟨k, hsub hk, hb⟩
  · rintro ⟨k, hk, hb⟩
    refine ⟨k, ?_, hb⟩
    by_contra hne
    rw [habs k hk hne] at hb
    simp at hb

theorem Releases.release {s t : Custody} {dest : String} {ids : Set ℕ} {rel : List ℕ}
    (h : Releases s t dest ids rel) (ht : Filed t) {k b : ℕ} (hb : t.find dest k = some b)
    (hin : InCustody t b) : ∃ u, t.releaseCustody b = .ok u ∧ Filed u ∧
      Releases s u dest (Set.insert k ids) (rel ++ [b]) := by
  obtain ⟨hdest, hid⟩ := ht.own dest k b hb
  obtain ⟨u, hu, hr⟩ := ht.releaseCustody hin (fun _ => by rw [hdest, hid]; exact hb)
  obtain ⟨hbs, hrel⟩ := (h.find dest k b).mp hb
  have hins : InCustody s b := by
    rw [InCustody, ← h.kept b hrel]
    exact hin
  refine ⟨u, hu, hr.filed, ?_, fun c => ?_, fun d j c => ?_, fun c hc => ?_, fun c hc => ?_⟩
  · exact List.Nodup.append h.nodup (List.nodup_singleton b) (by simpa using hrel)
  · rw [List.mem_append, List.mem_singleton, h.mem]
    constructor
    · rintro (⟨j, hj, hc⟩ | rfl)
      · exact ⟨j, Set.mem_insert_of_mem k hj, hc⟩
      · exact ⟨k, Set.mem_insert k ids, hbs, hins⟩
    · rintro ⟨j, rfl | hj, hc⟩
      · exact .inr (Option.some.inj (hc.1.symm.trans hbs))
      · exact .inl ⟨j, hj, hc⟩
  · rw [List.mem_append, List.mem_singleton, not_or]
    by_cases hc : c = b
    · subst hc
      simp [hr.unfiled d j]
    · rw [hr.find d j c hc, h.find]
      simp [hc]
  · rw [List.mem_append, List.mem_singleton, not_or] at hc
    rw [hr.bundles c hc.2, h.kept c hc.1]
  · rcases List.mem_append.mp hc with hc | hc
    · have hne : c ≠ b := fun he => hrel (he ▸ hc)
      rw [InCustody, hr.bundles c hne]
      exact h.out c hc
    · obtain rfl := List.mem_singleton.mp hc
      exact ⟨hr.out, hr.id⟩

/-- The ids of an entry from an index on. -/
def Fill (leftEdge lengthOfFill : ℕ) : Set ℕ := { k | leftEdge ≤ k ∧ k < leftEdge + lengthOfFill }

/-- The rest of an entry, for a list whose ids do not exceed the last one. -/
theorem fillLoop_releases {s : Custody} {dest : String} {last leftEdge : ℕ}
    (hlast : ∀ k b, s.find dest k = some b → k ≤ last) {n idx : ℕ} {t : Custody} {ids : Set ℕ}
    {rel : List ℕ} (hfit : leftEdge + idx + n ≤ 2 ^ 64) (ht : Filed t)
    (h : Releases s t dest ids rel) :
    ∃ u rel', fillLoop dest last leftEdge n idx (t, rel) = .ok (u, rel') ∧ Filed u ∧
      Releases s u dest (ids ∪ Fill (leftEdge + idx) n) rel' := by
  induction n generalizing idx t ids rel with
  | zero =>
    refine ⟨t, rel, rfl, ht, h.of_absent Set.subset_union_left fun k hk hne => ?_⟩
    rcases hk with hk | hk
    · exact absurd hk hne
    · simp only [Fill, Set.mem_ofPred_eq] at hk
      omega
  | succ n ih =>
    have hcid : u64 (leftEdge + idx) = leftEdge + idx := u64_of_lt (by omega)
    have hfill : ids ∪ Fill (leftEdge + idx) (n + 1) =
        Set.insert (leftEdge + idx) ids ∪ Fill (leftEdge + (idx + 1)) n := by
      ext k
      change (k ∈ ids ∨ _ ≤ k ∧ _) ↔ (k = leftEdge + idx ∨ k ∈ ids) ∨ _ ≤ k ∧ _
      by_cases hk : k ∈ ids
      · simp [hk]
      · simp only [hk, false_or, or_false]
        omega
    rw [fillLoop, hcid, hfill]
    by_cases hover : last < leftEdge + idx
    · refine ⟨t, rel, if_pos hover, ht, h.of_absent ?_ fun k hk hne => ?_⟩
      · exact fun k hk => .inl (.inr hk)
      · by_contra hsome
        obtain ⟨b, hb⟩ := Option.ne_none_iff_exists'.mp hsome
        have hle := hlast k b hb
        rcases hk with (rfl | hk) | hk
        · omega
        · exact hne hk
        · simp only [Fill, Set.mem_ofPred_eq] at hk
          omega
    · rw [if_neg hover]
      have hfit' : leftEdge + (idx + 1) + n ≤ 2 ^ 64 := by omega
      cases hb : t.find dest (leftEdge + idx) with
      | none => exact ih hfit' ht (h.skip fun b hb' => by rw [hb] at hb'; simp at hb')
      | some b =>
        dsimp only
        by_cases hin : InCustody t b
        · obtain ⟨u, hu, huf, hur⟩ := h.release ht hb hin
          rw [if_neg (by rcases hin with hin | hin <;> simp [hin])]
          simp only [hu, bind, Except.bind]
          exact ih hfit' huf hur
        · rw [if_pos (by rw [InCustody, not_or] at hin; simp [hin])]
          refine ih hfit' ht (h.skip fun c hc => ?_)
          rw [hb] at hc
          rwa [← Option.some.inj hc]

/-- The ids that a list of entries names. -/
def Named (entries : List (ℕ × ℕ)) : Set ℕ := { k | ∃ e ∈ entries, k ∈ Fill e.1 e.2 }

theorem entryLoop_releases {s : Custody} {dest : String} {last : ℕ}
    (hlast : ∀ k b, s.find dest k = some b → k ≤ last) {entries : List (ℕ × ℕ)}
    (hfit : ∀ e ∈ entries, e.1 + e.2 ≤ 2 ^ 64) {t : Custody} {ids : Set ℕ} {rel : List ℕ}
    (ht : Filed t) (h : Releases s t dest ids rel) :
    ∃ u rel', entryLoop dest last entries (t, rel) = .ok (u, rel') ∧
      Releases s u dest (ids ∪ Named entries) rel' := by
  induction entries generalizing t ids rel with
  | nil =>
    have hnil : ids ∪ Named [] = ids := by simp [Named]
    rw [hnil]
    exact ⟨t, rel, rfl, h⟩
  | cons e entries ih =>
    have hfit₀ : e.1 + 0 + e.2 ≤ 2 ^ 64 := hfit e List.mem_cons_self
    obtain ⟨u, rel₁, hu, huf, hur⟩ := fillLoop_releases hlast hfit₀ ht h
    obtain ⟨v, rel₂, hv, hvr⟩ := ih (fun e' he' => hfit e' (List.mem_cons_of_mem e he')) huf hur
    refine ⟨v, rel₂, ?_, ?_⟩
    · rw [entryLoop]
      simp only [hu, bind, Except.bind]
      exact hv
    · have hset : ids ∪ Named (e :: entries) = ids ∪ Fill (e.1 + 0) e.2 ∪ Named entries := by
        ext k
        simp [Named, or_assoc]
      rw [hset]
      exact hvr

theorem Filed.processAcs {s : Custody} (h : Filed s) (dest : String) {succeeded redundant : Bool}
    (hsignal : (succeeded || redundant) = true) {entries : OrdMap ℕ (ℕ × ℕ)}
    (hfit : ∀ e ∈ entries.values, e.1 + e.2 ≤ 2 ^ 64) :
    ∃ t rel, Custody.processAcs s dest succeeded redundant entries = .ok (t, rel) ∧
      Releases s t dest (Named entries.values) rel := by
  obtain ⟨t, rel, ht, hr⟩ := entryLoop_releases
    (fun k b hk => (h.issued dest k b hk).2) hfit h (Releases.none s dest)
  rw [Set.empty_union] at hr
  refine ⟨t, rel, ?_, hr⟩
  rw [Custody.processAcs, if_neg (by simp [hsignal])]
  split_ifs with hsize
  · have hnil : entries.values = [] := by
      rw [OrdMap.values, List.length_eq_zero_iff.mp hsize]
      rfl
    rw [hnil] at ht
    exact ht
  · exact ht

/-! ## Lists built by insertion and erasure -/

inductive ListOp
  | insert (b : ℕ)
  | erase (b : ℕ)

def listStep (s : Custody) : ListOp → Except Fault Custody
  | .insert b => s.insert b
  | .erase b => s.erase b

/-- A bundle without an id finds one that was not given out. -/
def HasRoom (s : Custody) : ListOp → Prop
  | .insert b => (s.bundles b).custodyId = 0 → Room s b
  | .erase _ => True

instance (s : Custody) (op : ListOp) : Decidable (HasRoom s op) := by
  unfold HasRoom
  split <;> infer_instance

/-- Bundles on no list. -/
def unlisted (bundles : ℕ → CustodyBundle) : Custody where
  bundles b := { bundles b with mappings := fun _ => none }

theorem filed_unlisted (bundles : ℕ → CustodyBundle) : Filed (unlisted bundles) :=
  ⟨fun _ _ _ => by simp [unlisted, find], fun _ _ _ h => by simp [unlisted, find] at h,
    fun _ _ _ h => by simp [unlisted, find] at h⟩

theorem Filed.listStep {s t : Custody} (h : Filed s) {op : ListOp} (hop : HasRoom s op)
    (ht : s.listStep op = .ok t) : Filed t := by
  cases op with
  | insert b =>
    change s.insert b = .ok t at ht
    by_cases hid : (s.bundles b).custodyId = 0
    · obtain ⟨hins, hfiled⟩ := h.insert_new hid (hop hid)
      obtain rfl := Except.ok.inj (hins.symm.trans ht)
      exact hfiled
    · cases hmap : (s.bundles b).mappings (s.bundles b).custodyDest with
      | some k =>
        -- a bundle that is on the list stays there
        have hadd : s.insert b = .ok (s.raised b) := by
          rw [Custody.insert, if_neg hid, Custody.raised]
          split_ifs <;> rw [addBundle] <;> simp [hmap]
        obtain rfl := Except.ok.inj (hadd.symm.trans ht)
        exact h.raised b
      | none =>
        cases hf : s.find (s.bundles b).custodyDest (s.bundles b).custodyId with
        | none =>
          obtain ⟨hins, hfiled⟩ := h.insert_reload hid hmap hf
          obtain rfl := Except.ok.inj (hins.symm.trans ht)
          exact hfiled
        | some c =>
          have herr : s.insert b = .error .assertFailed := by
            have hadd : (s.raised b).addBundle (s.bundles b).custodyDest (s.bundles b).custodyId b =
                .error .assertFailed := by
              rw [addBundle, raised_bundles, hmap, find_raised, hf]
              rfl
            rw [Custody.insert, if_neg hid, ← hadd, Custody.raised]
            split_ifs <;> rfl
          rw [herr] at ht
          cases ht
  | erase b =>
    change s.eraseKey _ _ = .ok t at ht
    cases hf : s.find (s.bundles b).custodyDest (s.bundles b).custodyId with
    | none =>
      rw [eraseKey_none hf] at ht
      obtain rfl := Except.ok.inj ht
      exact h
    | some c =>
      rw [h.eraseKey_eq hf] at ht
      obtain rfl := Except.ok.inj ht
      exact h.unfile hf

theorem Filed.listRun {s t : Custody} (h : Filed s) {ops : List ListOp}
    (hops : Meets Custody.listStep HasRoom s ops) (ht : run Custody.listStep s ops = .ok t) :
    Filed t := by
  induction ops generalizing s with
  | nil =>
    obtain rfl := Except.ok.inj ht
    exact h
  | cons op ops ih =>
    obtain ⟨hop, hrest⟩ := hops
    rw [run] at ht
    rcases hs : s.listStep op with e | s'
    · simp [hs] at ht
    · simp only [hs] at ht hrest
      exact ih (h.listStep hop hs) hrest ht

/-- A signal releases the bundles in custody that it names for its destination, each once, and no
others. -/
theorem processAcs_releases (bundles : ℕ → CustodyBundle) (ops : List ListOp) (s : Custody)
    (hops : Meets listStep HasRoom (unlisted bundles) ops)
    (hs : run listStep (unlisted bundles) ops = .ok s) (dest : String) (succeeded redundant : Bool)
    (hsignal : (succeeded || redundant) = true) (entries : OrdMap ℕ (ℕ × ℕ))
    (hfit : ∀ e ∈ entries.values, e.1 + e.2 ≤ 2 ^ 64) :
    ∃ t rel, s.processAcs dest succeeded redundant entries = .ok (t, rel) ∧
      Releases s t dest (Named entries.values) rel :=
  ((filed_unlisted bundles).listRun hops hs).processAcs dest hsignal hfit

/-- Ranges that overlap and reach past the last id, beside a bundle of another destination. -/
theorem processAcs_releases_overlap :
    ∃ s, run listStep (unlisted fun b => { bibeCustody := true, custodyDest := if b = 2 then "e" else "d" })
        [.insert 0, .insert 1, .insert 2, .insert 3, .erase 1] = .ok s ∧
      ∃ t rel, s.processAcs "d" true false (((OrdMap.empty.insert 1 (1, 2)).insert 2 (2, 2 ^ 64 - 2))) =
          .ok (t, rel) ∧
        Releases s t "d" (Named ((OrdMap.empty.insert 1 (1, 2)).insert 2 (2, 2 ^ 64 - 2)).values) rel := by
  have hok : (run listStep (unlisted fun b => { bibeCustody := true, custodyDest := if b = 2 then "e" else "d" })
      [.insert 0, .insert 1, .insert 2, .insert 3, .erase 1]).isOk = true := by
    decide +kernel
  cases h : run listStep (unlisted fun b => { bibeCustody := true, custodyDest := if b = 2 then "e" else "d" })
      [.insert 0, .insert 1, .insert 2, .insert 3, .erase 1] with
  | error e =>
    rw [h] at hok
    cases hok
  | ok s =>
    exact ⟨s, rfl, processAcs_releases _ _ s (by decide +kernel) h "d" true false rfl _
      (by decide +kernel)⟩

/-- Behind a bundle that was read back with the greatest id the counter comes around: the id is past
the last one and its bundle is not released. -/
theorem processAcs_past_last :
    ¬ ∃ s, run listStep (unlisted fun b =>
          { bibeCustody := true, custodyId := if b = 0 then 2 ^ 64 - 1 else 0, custodyDest := "d" })
        [.insert 0, .insert 1] = .ok s ∧
      ∃ t rel, s.processAcs "d" true false (OrdMap.empty.insert 1 (1, 2 ^ 64 - 1)) = .ok (t, rel) ∧
        Releases s t "d" (Named (OrdMap.empty.insert 1 (1, 2 ^ 64 - 1)).values) rel := by
  rintro ⟨s, hs, t, rel, hp, hr⟩
  have hnone : (run listStep (unlisted fun b =>
      { bibeCustody := true, custodyId := if b = 0 then 2 ^ 64 - 1 else 0, custodyDest := "d" })
      [.insert 0, .insert 1]).toOption.bind (fun s =>
        (s.processAcs "d" true false (OrdMap.empty.insert 1 (1, 2 ^ 64 - 1))).toOption.map (·.2)) =
          some [] := by
    decide +kernel
  have hfiled : (run listStep (unlisted fun b =>
      { bibeCustody := true, custodyId := if b = 0 then 2 ^ 64 - 1 else 0, custodyDest := "d" })
      [.insert 0, .insert 1]).toOption.map (fun s =>
        (s.find "d" (2 ^ 64 - 1), (s.bundles 0).bibeCustody)) = some (some 0, true) := by
    decide +kernel
  rw [hs] at hnone hfiled
  have hrel : rel = [] := by
    change (s.processAcs "d" true false _).toOption.map (·.2) = some [] at hnone
    rw [hp] at hnone
    exact Option.some.inj hnone
  obtain ⟨hfind, hbibe⟩ := Prod.mk.inj (Option.some.inj hfiled)
  have hmem := (hr.mem 0).mpr ⟨2 ^ 64 - 1, ⟨(1, 2 ^ 64 - 1), List.mem_singleton.mpr rfl, by decide, by decide⟩,
    hfind, .inr hbibe⟩
  rw [hrel] at hmem
  exact absurd hmem List.not_mem_nil

end Dtnme.Bundling.Custody
