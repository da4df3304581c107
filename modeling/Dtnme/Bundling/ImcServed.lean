import Dtnme.Bundling.ImcState

/-! # Nodes that are handled without being served

A link's success handles the nodes on the link's list. A bundle sent over a link that has no list
goes to all of its nodes, so a success without a list handles them all: also when the list is gone
because of an earlier report or of a new routing.
-/

namespace Dtnme.Bundling
open Library

namespace ImcState

def Handled (s : ImcState) (n : ℕ) : Prop := s.dests.find? n = some true

def OnList (s : ImcState) (linkname : String) (n : ℕ) : Prop :=
  ((s.linkMap linkname).find? n).isSome

/-- The operation handles the node, by itself or as one on the list of a link that succeeds. -/
def Serves (s : ImcState) (op : Op) (n : ℕ) : Prop :=
  op = .destNodeHandled n ∨ ∃ l, op = .linkTransmitSuccess l ∧ s.OnList l n

/-- A link without a list succeeds, and the node is one of the bundle's that is not handled. -/
def ServesUnlisted (s : ImcState) (op : Op) (n : ℕ) : Prop :=
  ∃ l, op = .linkTransmitSuccess l ∧ s.links.find? l = none ∧ s.dests.find? n = some false ∧ 0 < n

/-- The operation puts the node on the list of the link. -/
def Queues (s : ImcState) (op : Op) (linkname : String) (n : ℕ) : Prop :=
  op = .addDestNodeViaLink linkname n ∨
    op = .copyAllUnhandledNodesToViaLink linkname ∧ s.dests.find? n = some false

/-- The operation removes the list of the link. -/
def Removes (op : Op) (linkname : String) : Prop :=
  op = .linkTransmitSuccess linkname ∨ op = .linkTransmitFailure linkname ∨ op = .clearLinkLists

/-! ## Becoming handled -/

theorem handled_foldl (skip : ℕ × Bool → Bool) {l : List (ℕ × Bool)} {s : ImcState} {n : ℕ}
    (h : (l.foldl (fun s e => if skip e then s else s.imcDestNodeHandled e.1) s).Handled n) :
    s.Handled n ∨ ∃ e ∈ l, skip e = false ∧ e.1 = n ∧ 0 < n := by
  induction l generalizing s with
  | nil => exact Or.inl h
  | cons e l ih =>
    rw [List.foldl_cons] at h
    rcases ih h with hs | ⟨d, hd, hskip, hn⟩
    · split_ifs at hs with he
      · exact Or.inl hs
      · unfold Handled at hs
        rw [dests_imcDestNodeHandled] at hs
        split_ifs at hs with hn
        · exact Or.inr ⟨e, List.mem_cons_self, by simpa using he, hn.1.symm, hn.1 ▸ hn.2⟩
        · exact Or.inl hs
    · exact Or.inr ⟨d, List.mem_cons_of_mem e hd, hskip, hn⟩

theorem handled_imcLinkTransmitSuccess {s : ImcState} {l : String} {n : ℕ} (hs : ¬ s.Handled n)
    (h : (s.imcLinkTransmitSuccess l).Handled n) :
    s.OnList l n ∨ s.links.find? l = none ∧ s.dests.find? n = some false ∧ 0 < n := by
  unfold imcLinkTransmitSuccess at h
  cases hl : s.links.find? l with
  | some m =>
    simp only [hl] at h
    rcases handled_foldl (fun _ => false) h with hs' | ⟨⟨n', b⟩, he, _, rfl, _⟩
    · exact absurd hs' hs
    · left
      simp only [OnList, linkMap, hl, Option.getD_some]
      rw [OrdMap.find?_eq_some_iff.mpr he]
      rfl
  | none =>
    simp only [hl] at h
    rcases handled_foldl (fun e => e.2) h with hs' | ⟨⟨n', b⟩, he, hskip, rfl, hpos⟩
    · exact absurd hs' hs
    · right
      simp only at hskip
      rw [hskip] at he
      exact ⟨rfl, OrdMap.find?_eq_some_iff.mpr he, hpos⟩

/-- What one operation can do. -/
theorem handled_step {s t : ImcState} {op : Op} {n : ℕ} (h : s.step op = .ok t)
    (hs : ¬ s.Handled n) (ht : t.Handled n) : s.Serves op n ∨ s.ServesUnlisted op n := by
  cases op with
  | addOrigDestNode k =>
    obtain rfl := Except.ok.inj h
    unfold Handled at ht
    rw [dests_addImcOrigDestNode] at ht
    split_ifs at ht with hn
    · cases hf : s.dests.find? n with
      | none => simp [hf] at ht
      | some b => exact absurd (by simpa [Handled, hf] using ht) hs
    · exact absurd ht hs
  | addDestNode k =>
    obtain rfl := Except.ok.inj h
    unfold Handled at ht
    rw [dests_addImcDestNode] at ht
    split_ifs at ht with hn
    · cases hf : s.dests.find? n with
      | none => simp [hf] at ht
      | some b => exact absurd (by simpa [Handled, hf] using ht) hs
    · exact absurd ht hs
  | destNodeHandled k =>
    obtain rfl := Except.ok.inj h
    unfold Handled at ht
    rw [dests_imcDestNodeHandled] at ht
    split_ifs at ht with hn
    · exact Or.inl (Or.inl (by rw [hn.1]))
    · exact absurd ht hs
  | addRegionProcessed r =>
    obtain rfl := Except.ok.inj h
    exact absurd ht hs
  | addProcessedByNode k =>
    obtain rfl := Except.ok.inj h
    obtain ⟨m, hm⟩ := s.addImcProcessedByNode_eq k
    rw [hm] at ht
    exact absurd ht hs
  | addDestNodeViaLink l k =>
    obtain rfl := Except.ok.inj h
    exact absurd ht hs
  | copyAllUnhandledNodesToViaLink l =>
    change s.copyAllUnhandledNodesToViaLink l = _ at h
    unfold copyAllUnhandledNodesToViaLink at h
    split at h
    · simp at h
    · obtain rfl := Except.ok.inj h
      exact absurd ht hs
  | linkTransmitSuccess l =>
    obtain rfl := Except.ok.inj h
    rcases handled_imcLinkTransmitSuccess hs ht with hlist | hnone
    · exact Or.inl (Or.inr ⟨l, rfl, hlist⟩)
    · exact Or.inr ⟨l, rfl, hnone⟩
  | linkTransmitFailure l =>
    obtain rfl := Except.ok.inj h
    exact absurd ht hs
  | clearLinkLists =>
    obtain rfl := Except.ok.inj h
    exact absurd ht hs

/-! ## Where the nodes on a list come from -/

theorem onList_iff {s : ImcState} {l : String} {n : ℕ} :
    s.OnList l n ↔ ∃ m, s.links.find? l = some m ∧ (m.find? n).isSome := by
  unfold OnList linkMap
  cases s.links.find? l <;> simp

theorem isSome_foldl_copy {es : List (ℕ × Bool)} {m : NodeMap} {n : ℕ}
    (h : ((es.foldl (fun l e => if e.2 then l else l.insert e.1 false) m).find? n).isSome) :
    (m.find? n).isSome ∨ (n, false) ∈ es := by
  induction es generalizing m with
  | nil => exact Or.inl h
  | cons e es ih =>
    rw [List.foldl_cons] at h
    rcases ih h with hm | hes
    · obtain ⟨k, b⟩ := e
      cases b with
      | true => exact Or.inl hm
      | false =>
        simp only [Bool.false_eq_true, if_false, OrdMap.find?_insert] at hm
        split_ifs at hm with hn
        · exact Or.inr (by simp [hn])
        · exact Or.inl hm
    · exact Or.inr (List.mem_cons_of_mem e hes)

theorem links_of_other {s t : ImcState} (h : t.other = s.other) : t.links = s.links :=
  (congrArg links h : t.other.links = s.other.links)

theorem other_foldl_handled (es : List (ℕ × Bool)) (skip : ℕ × Bool → Bool) (s : ImcState) :
    (es.foldl (fun s e => if skip e then s else s.imcDestNodeHandled e.1) s).other = s.other := by
  induction es generalizing s with
  | nil => rfl
  | cons e es ih =>
    rw [List.foldl_cons, ih]
    split_ifs
    · rfl
    · exact other_imcDestNodeHandled s e.1

theorem links_imcLinkTransmitSuccess (s : ImcState) (l k : String) :
    (s.imcLinkTransmitSuccess l).links.find? k = if k = l then none else s.links.find? k := by
  unfold imcLinkTransmitSuccess
  cases hl : s.links.find? l with
  | some m =>
    have hlinks : (m.entries.foldl (fun s e => s.imcDestNodeHandled e.1) s).links = s.links :=
      links_of_other (other_foldl_handled m.entries (fun _ => false) s)
    change ((m.entries.foldl (fun s e => s.imcDestNodeHandled e.1) s).links.erase l).find? k = _
    rw [hlinks, OrdMap.find?_erase]
  | none =>
    simp only
    rw [links_of_other (other_foldl_handled _ (fun e => e.2) s)]
    split_ifs with hk
    · rw [hk, hl]
    · rfl

/-- A node stands on a list after a step because the step puts it there, or because it did before
and the step does not remove the list. -/
theorem onList_step {s t : ImcState} {op : Op} {l : String} {n : ℕ} (h : s.step op = .ok t)
    (ht : t.OnList l n) : s.Queues op l n ∨ s.OnList l n ∧ ¬ Removes op l := by
  rw [onList_iff] at ht
  cases op with
  | addOrigDestNode k =>
    obtain rfl := Except.ok.inj h
    obtain ⟨m, hm, _⟩ := s.addImcOrigDestNode_eq k
    rw [hm, links_of_other (other_addImcDestNode _ k)] at ht
    exact Or.inr ⟨onList_iff.mpr ht, by simp [Removes]⟩
  | addDestNode k =>
    obtain rfl := Except.ok.inj h
    rw [links_of_other (other_addImcDestNode s k)] at ht
    exact Or.inr ⟨onList_iff.mpr ht, by simp [Removes]⟩
  | destNodeHandled k =>
    obtain rfl := Except.ok.inj h
    rw [links_of_other (other_imcDestNodeHandled s k)] at ht
    exact Or.inr ⟨onList_iff.mpr ht, by simp [Removes]⟩
  | addRegionProcessed r =>
    obtain rfl := Except.ok.inj h
    exact Or.inr ⟨onList_iff.mpr ht, by simp [Removes]⟩
  | addProcessedByNode k =>
    obtain rfl := Except.ok.inj h
    obtain ⟨m, hm⟩ := s.addImcProcessedByNode_eq k
    rw [hm] at ht
    exact Or.inr ⟨onList_iff.mpr ht, by simp [Removes]⟩
  | addDestNodeViaLink k d =>
    obtain rfl := Except.ok.inj h
    obtain ⟨m, hm, hn⟩ := ht
    change (s.links.insert k ((s.linkMap k).insert d false)).find? l = some m at hm
    rw [OrdMap.find?_insert] at hm
    split_ifs at hm with hl
    · obtain rfl := Option.some.inj hm
      rw [OrdMap.find?_insert] at hn
      split_ifs at hn with hd
      · exact Or.inl (Or.inl (by rw [hl, hd]))
      · exact Or.inr ⟨by rw [hl]; exact hn, by simp [Removes]⟩
    · exact Or.inr ⟨onList_iff.mpr ⟨m, hm, hn⟩, by simp [Removes]⟩
  | copyAllUnhandledNodesToViaLink k =>
    change s.copyAllUnhandledNodesToViaLink k = _ at h
    unfold copyAllUnhandledNodesToViaLink at h
    cases hd : s.destMap with
    | none => simp [hd] at h
    | some ds =>
      simp only [hd] at h
      obtain rfl := Except.ok.inj h
      obtain ⟨m, hm, hn⟩ := ht
      change (s.links.insert k (ds.entries.foldl
        (fun l e => if e.2 then l else l.insert e.1 false) (s.linkMap k))).find? l = some m at hm
      rw [OrdMap.find?_insert] at hm
      split_ifs at hm with hl
      · obtain rfl := Option.some.inj hm
        rcases isSome_foldl_copy hn with hold | hmem
        · exact Or.inr ⟨by rw [hl]; exact hold, by simp [Removes]⟩
        · have hdests : s.dests = ds := by simp [dests, hd]
          refine Or.inl (Or.inr ⟨by rw [hl], ?_⟩)
          rw [hdests]
          exact OrdMap.find?_eq_some_iff.mpr hmem
      · exact Or.inr ⟨onList_iff.mpr ⟨m, hm, hn⟩, by simp [Removes]⟩
  | linkTransmitSuccess k =>
    obtain rfl := Except.ok.inj h
    obtain ⟨m, hm, hn⟩ := ht
    rw [links_imcLinkTransmitSuccess] at hm
    split_ifs at hm with hl
    exact Or.inr ⟨onList_iff.mpr ⟨m, hm, hn⟩, by simp [Removes, Ne.symm hl]⟩
  | linkTransmitFailure k =>
    obtain rfl := Except.ok.inj h
    obtain ⟨m, hm, hn⟩ := ht
    have hfind : (s.imcLinkTransmitFailure k).links.find? l =
        if l = k then none else s.links.find? l := by
      unfold imcLinkTransmitFailure links
      cases s.linkDestMap with
      | none => simp
      | some ls => exact OrdMap.find?_erase ls k l
    rw [hfind] at hm
    split_ifs at hm with hl
    exact Or.inr ⟨onList_iff.mpr ⟨m, hm, hn⟩, by simp [Removes, Ne.symm hl]⟩
  | clearLinkLists =>
    obtain rfl := Except.ok.inj h
    obtain ⟨m, hm, hn⟩ := ht
    unfold clearImcLinkLists links at hm
    cases hls : s.linkDestMap <;> simp [hls] at hm

/-- A node on a list was put there by an operation after which the list was not removed. -/
theorem onList_run {s t : ImcState} {ops : List Op} (hs : s.linkDestMap = none)
    (h : run step s ops = .ok t) {l : String} {n : ℕ} (ht : t.OnList l n) :
    ∃ before op after u, ops = before ++ op :: after ∧ run step s before = .ok u ∧
      u.Queues op l n ∧ ∀ o ∈ after, ¬ Removes o l := by
  have hinv := run_ok_invariant
    (fun t past => run step s past = .ok t ∧ ∀ l n, t.OnList l n →
      ∃ before op after u, past = before ++ op :: after ∧ run step s before = .ok u ∧
        u.Queues op l n ∧ ∀ o ∈ after, ¬ Removes o l)
    ?_ ?_ h
  · exact hinv.2 l n ht
  · rintro u past op v _ ⟨hrun, hlists⟩ hstep
    refine ⟨by rw [run_append, hrun]; simp [Except.bind, run, hstep], fun l n hv => ?_⟩
    rcases onList_step hstep hv with hqueues | ⟨hu, hkeeps⟩
    · exact ⟨past, op, [], u, rfl, hrun, hqueues, by simp⟩
    · obtain ⟨before, o, after, w, rfl, hw, hqueues, hafter⟩ := hlists l n hu
      refine ⟨before, o, after ++ [op], w, by simp, hw, hqueues, ?_⟩
      intro o' ho'
      rcases List.mem_append.mp ho' with hmem | hmem
      · exact hafter o' hmem
      · rw [List.mem_singleton.mp hmem]
        exact hkeeps
  · refine ⟨rfl, fun l n hnone => ?_⟩
    obtain ⟨m, hm, _⟩ := onList_iff.mp hnone
    simp [links, hs] at hm

/-- A node is put on the list of a link, which stays while other links succeed and fail. -/
theorem onList_run_stays :
    ∃ before op after u,
      [Op.addDestNode 2, .addDestNodeViaLink "a" 2, .addDestNode 3, .addDestNodeViaLink "b" 3,
        .linkTransmitSuccess "b", .linkTransmitFailure "c"] = before ++ op :: after ∧
      run step {} before = .ok u ∧ u.Queues op "a" 2 ∧ ∀ o ∈ after, ¬ Removes o "a" := by
  have hrun : run step {} [Op.addDestNode 2, .addDestNodeViaLink "a" 2, .addDestNode 3,
      .addDestNodeViaLink "b" 3, .linkTransmitSuccess "b", .linkTransmitFailure "c"] =
      .ok ((((((ImcState.addImcDestNode {} 2).addImcDestNodeViaLink "a" 2).addImcDestNode
        3).addImcDestNodeViaLink "b" 3).imcLinkTransmitSuccess "b").imcLinkTransmitFailure "c") :=
    rfl
  exact onList_run rfl hrun (by unfold OnList; decide)

/-! ## Runs -/

/-- A node becomes handled at an operation that handles it, at the success of a link whose list it
is on, or at a success for which there is no list. -/
theorem handled_run_cause (s t : ImcState) (ops : List Op) (n : ℕ) (h : run step s ops = .ok t)
    (hs : ¬ s.Handled n) (ht : t.Handled n) :
    ∃ i op u, ops[i]? = some op ∧ run step s (ops.take i) = .ok u ∧ ¬ u.Handled n ∧
      (u.Serves op n ∨ u.ServesUnlisted op n) := by
  obtain ⟨i, op, u, v, hop, hrun, hstep, hu, hv⟩ :=
    exists_step_change (Q := fun s => s.Handled n) hs ht h
  exact ⟨i, op, u, hop, hrun, hu, handled_step hstep hu hv⟩

/-- The operation is no success of a link without a list while a destination is not handled. -/
def Listed (s : ImcState) (op : Op) : Prop := ∀ n, ¬ s.ServesUnlisted op n

/-- Whenever a step of the run handles a node, the step serves it. -/
def OnlyServed (s : ImcState) (ops : List Op) : Prop :=
  ∀ i op u v n, ops[i]? = some op → run step s (ops.take i) = .ok u → u.step op = .ok v →
    ¬ u.Handled n → v.Handled n → u.Serves op n

theorem handled_of_mem_foldl {skip : ℕ × Bool → Bool} {l : List (ℕ × Bool)} (s : ImcState)
    {e : ℕ × Bool} (he : e ∈ l) (hskip : skip e = false) (hpos : 0 < e.1) :
    (l.foldl (fun s e => if skip e then s else s.imcDestNodeHandled e.1) s).Handled e.1 := by
  induction l generalizing s with
  | nil => cases he
  | cons d l ih =>
    rw [List.foldl_cons]
    rcases List.mem_cons.mp he with rfl | hmem
    · apply keepsHandled_foldl
      rw [hskip, if_neg Bool.false_ne_true, dests_imcDestNodeHandled, if_pos ⟨rfl, hpos⟩]
    · exact ih _ hmem

/-- The success of a link without a list handles a node that it does not serve. -/
theorem ServesUnlisted.handles {s : ImcState} {op : Op} {n : ℕ} (h : s.ServesUnlisted op n) :
    ∃ t, s.step op = .ok t ∧ ¬ s.Handled n ∧ t.Handled n ∧ ¬ s.Serves op n := by
  obtain ⟨l, rfl, hnone, hn, hpos⟩ := h
  refine ⟨s.imcLinkTransmitSuccess l, rfl, by simp [Handled, hn], ?_, ?_⟩
  · unfold imcLinkTransmitSuccess
    rw [hnone]
    exact handled_of_mem_foldl s (OrdMap.find?_eq_some_iff.mp hn) rfl hpos
  · rintro (hop | ⟨k, hop, hlist⟩)
    · cases hop
    · cases hop
      simp [onList_iff, hnone] at hlist

/-- The nodes that a run handles are all served exactly if no link without a list succeeds while
a destination is not handled. -/
theorem handled_run_served_iff (s : ImcState) (ops : List Op) :
    OnlyServed s ops ↔ Meets step Listed s ops := by
  constructor
  · intro h
    by_contra hmeets
    obtain ⟨i, op, u, hop, -, hrun, hbreak⟩ := exists_first_break hmeets
    obtain ⟨n, hunlisted⟩ := not_forall_not.mp hbreak
    obtain ⟨v, hstep, hu, hv, hserves⟩ := hunlisted.handles
    exact hserves (h i op u v n hop hrun hstep hu hv)
  · intro h i op u v n hop hrun hstep hu hv
    rcases handled_step hstep hu hv with hserves | hunlisted
    · exact hserves
    · exact absurd hunlisted (h.at_index hrun hop n)

/-- A link reports the same success twice, and the node that waits for another link is handled. -/
theorem handled_twice_unserved : ¬ ∀ (s : ImcState) (ops : List Op), OnlyServed s ops := by
  intro h
  have hserves := h {} [.addDestNode 1, .addDestNode 2, .addDestNodeViaLink "a" 1,
    .addDestNodeViaLink "b" 2, .linkTransmitSuccess "a", .linkTransmitSuccess "a"] 5
    (.linkTransmitSuccess "a") _ _ 2 rfl rfl rfl (by unfold Handled; decide)
    (by unfold Handled; decide)
  rcases hserves with hop | ⟨l, hop, hlist⟩
  · cases hop
  · cases hop
    exact absurd hlist (by unfold OnList; decide)

end ImcState

end Dtnme.Bundling
