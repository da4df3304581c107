import Mathlib.Data.List.Sort
import Dtnme.Bundling.Fragmentation

/-! # The blocks of a reassembled bundle

Copies of the blocks up to the payload are put in front for every fragment that starts at the front,
copies of the blocks behind it are put at the end for every one that reaches the end. So the list is
the original one only if each happens once, if no block was left out of a fragment and if the copy
keeps the blocks as they are.
-/

namespace Dtnme.Bundling
open Library

/-! ## Around the payload block -/

def payloadCount (l : List BlockInfo) : ℕ := l.countP (fun b => b.type = .payload)

theorem payloadCount_append (l r : List BlockInfo) :
    payloadCount (l ++ r) = payloadCount l + payloadCount r := List.countP_append

theorem payloadCount_cons (b : BlockInfo) (l : List BlockInfo) :
    payloadCount (b :: l) = payloadCount l + if b.type = .payload then 1 else 0 := by
  simp [payloadCount, List.countP_cons]

theorem payloadCount_pos {l : List BlockInfo} :
    0 < payloadCount l ↔ ∃ b ∈ l, b.type = .payload := by
  simp [payloadCount, List.countP_pos_iff]

theorem headBlocks_append_tailBlocks (l : List BlockInfo) : headBlocks l ++ tailBlocks l = l := by
  induction l with
  | nil => rfl
  | cons b l ih =>
    rw [headBlocks, tailBlocks]
    split_ifs
    · rfl
    · rw [List.cons_append, ih]

theorem payloadCount_headBlocks {l : List BlockInfo} (h : 0 < payloadCount l) :
    payloadCount (headBlocks l) = 1 := by
  induction l with
  | nil => simp [payloadCount] at h
  | cons b l ih =>
    rw [payloadCount_cons] at h
    rw [headBlocks]
    split_ifs at h ⊢ with hb
    · simp [payloadCount, hb]
    · rw [payloadCount_cons, if_neg hb, ih h]

/-- A list with one payload block has none behind it. -/
theorem payloadCount_tailBlocks {l : List BlockInfo} (h : payloadCount l = 1) :
    payloadCount (tailBlocks l) = 0 := by
  have hsum := payloadCount_append (headBlocks l) (tailBlocks l)
  rw [headBlocks_append_tailBlocks, payloadCount_headBlocks (by omega)] at hsum
  omega

/-- What is put behind the payload block. -/
theorem blocks_of_append {l t : List BlockInfo} (h : 0 < payloadCount l) :
    headBlocks (headBlocks l ++ t) = headBlocks l ∧ tailBlocks (headBlocks l ++ t) = t := by
  induction l with
  | nil => simp [payloadCount] at h
  | cons b l ih =>
    rw [payloadCount_cons] at h
    by_cases hb : b.type = .payload
    · simp [headBlocks, tailBlocks, hb]
    · rw [if_neg hb] at h
      simp [headBlocks, tailBlocks, hb, ih h]

theorem BlockInfo.copy_copy (v : ℕ) (b : BlockInfo) : (b.copy v).copy v = b.copy v := by
  unfold copy
  split_ifs <;> rfl

/-! ## The list after some fragments -/

namespace Bundle

def atFront (f : Bundle) : Bool := f.fragOffset = 0

def atEnd (f : Bundle) : Bool := u64 (f.fragOffset + f.payload.length) = f.origLength

end Bundle

/-- The blocks of which there are copies, in their order. -/
def gathered (got : List Bundle) : List BlockInfo :=
  (got.filter Bundle.atFront).reverse.flatMap (fun f => headBlocks f.recvBlocks) ++
    (got.filter Bundle.atEnd).flatMap (fun f => tailBlocks f.recvBlocks)

theorem gathered_append (got : List Bundle) (f : Bundle) :
    gathered (got ++ [f]) = (if f.atFront then headBlocks f.recvBlocks else []) ++ gathered got ++
      (if f.atEnd then tailBlocks f.recvBlocks else []) := by
  cases hfront : f.atFront <;> cases hend : f.atEnd
  all_goals simp [gathered, List.filter_append, hfront, hend]

theorem mergeBlocks_eq (l : List BlockInfo) (f : Bundle) :
    mergeBlocks l f =
      (if f.atFront then headBlocks f.recvBlocks else []).map (BlockInfo.copy f.bpVersion) ++ l ++
        (if f.atEnd then tailBlocks f.recvBlocks else []).map (BlockInfo.copy f.bpVersion) := by
  simp only [mergeBlocks, Bundle.atFront, Bundle.atEnd, decide_eq_true_eq]
  split_ifs <;> simp

theorem mem_gathered {got : List Bundle} {b : BlockInfo} (h : b ∈ gathered got) :
    ∃ f ∈ got, b ∈ f.recvBlocks := by
  rw [gathered, List.mem_append, List.mem_flatMap, List.mem_flatMap] at h
  rcases h with ⟨f, hf, hb⟩ | ⟨f, hf, hb⟩
  · rw [List.mem_reverse, List.mem_filter] at hf
    refine ⟨f, hf.1, ?_⟩
    rw [← headBlocks_append_tailBlocks f.recvBlocks]
    exact List.mem_append_left _ hb
  · rw [List.mem_filter] at hf
    refine ⟨f, hf.1, ?_⟩
    rw [← headBlocks_append_tailBlocks f.recvBlocks]
    exact List.mem_append_right _ hb

theorem foldl_mergeBlocks {v : ℕ} {got : List Bundle} (hv : ∀ f ∈ got, f.bpVersion = v) :
    got.foldl mergeBlocks [] = (gathered got).map (BlockInfo.copy v) := by
  induction got using List.reverseRecOn with
  | nil => rfl
  | append_singleton got f ih =>
    have hf : f.bpVersion = v := hv f (by simp)
    rw [List.foldl_append, List.foldl_cons, List.foldl_nil,
      ih fun g hg => hv g (List.mem_append_left _ hg), mergeBlocks_eq, hf, gathered_append,
      List.map_append, List.map_append]

/-! ## When it is the original list -/

/-- Each fragment has received blocks of the original bundle in their order, the payload block among
them. -/
def CarriesBlocks (recvBlocks : List BlockInfo) (f : Bundle) : Prop :=
  f.recvBlocks.Sublist recvBlocks ∧ 0 < payloadCount f.recvBlocks

section
variable {recvBlocks : List BlockInfo} {got : List Bundle}

theorem payloadCount_of_carries (hone : payloadCount recvBlocks = 1) {f : Bundle}
    (h : CarriesBlocks recvBlocks f) : payloadCount f.recvBlocks = 1 := by
  have hle : payloadCount f.recvBlocks ≤ payloadCount recvBlocks := h.1.countP_le
  have hpos := h.2
  omega

theorem payloadCount_flatMap_one {l : List Bundle} {g : Bundle → List BlockInfo} {n : ℕ}
    (h : ∀ f ∈ l, payloadCount (g f) = n) : payloadCount (l.flatMap g) = l.length * n := by
  induction l with
  | nil => simp [payloadCount]
  | cons f l ih =>
    rw [List.flatMap_cons, payloadCount_append, h f List.mem_cons_self,
      ih fun f' hf' => h f' (List.mem_cons_of_mem f hf'), List.length_cons]
    ring

/-- As many payload blocks as fragments that start at the front. -/
theorem payloadCount_gathered (hone : payloadCount recvBlocks = 1)
    (hgot : ∀ f ∈ got, CarriesBlocks recvBlocks f) :
    payloadCount (gathered got) = (got.filter Bundle.atFront).length := by
  rw [gathered, payloadCount_append, payloadCount_flatMap_one (n := 1),
    payloadCount_flatMap_one (n := 0), List.length_reverse]
  · omega
  · intro f hf
    exact payloadCount_tailBlocks (payloadCount_of_carries hone (hgot f (List.mem_of_mem_filter hf)))
  · intro f hf
    rw [List.mem_reverse] at hf
    exact payloadCount_headBlocks (hgot f (List.mem_of_mem_filter hf)).2

/-- Once at the front and once at the end all the blocks, which a copy leaves as they are. -/
structure BlocksOnce (v : ℕ) (recvBlocks : List BlockInfo) (got : List Bundle) : Prop where
  front : (got.filter Bundle.atFront).length = 1
  heads : ∀ f ∈ got, f.atFront = true → headBlocks f.recvBlocks = headBlocks recvBlocks
  tails : (got.filter Bundle.atEnd).flatMap (fun f => tailBlocks f.recvBlocks) =
    tailBlocks recvBlocks
  copied : ∀ b ∈ recvBlocks, b.copy v = b

theorem gathered_of_front (hfront : (got.filter Bundle.atFront).length = 1) :
    ∃ f ∈ got, f.atFront = true ∧ got.filter Bundle.atFront = [f] ∧
      gathered got = headBlocks f.recvBlocks ++
        (got.filter Bundle.atEnd).flatMap (fun f => tailBlocks f.recvBlocks) := by
  obtain ⟨f, hf⟩ := List.length_eq_one_iff.mp hfront
  have hmem : f ∈ got.filter Bundle.atFront := by simp [hf]
  rw [List.mem_filter] at hmem
  exact ⟨f, hmem.1, hmem.2, hf, by simp [gathered, hf]⟩

theorem map_copy_eq_self {v : ℕ} {l : List BlockInfo} (h : ∀ b ∈ l, b.copy v = b) :
    l.map (BlockInfo.copy v) = l := by
  conv_rhs => rw [← List.map_id l]
  exact List.map_congr_left h

theorem gathered_copies_iff {v : ℕ} (hone : payloadCount recvBlocks = 1)
    (hgot : ∀ f ∈ got, CarriesBlocks recvBlocks f) :
    (gathered got).map (BlockInfo.copy v) = recvBlocks ↔ BlocksOnce v recvBlocks got := by
  constructor
  · intro h
    have hcopied : ∀ b ∈ recvBlocks, b.copy v = b := by
      intro b hb
      rw [← h, List.mem_map] at hb
      obtain ⟨c, -, rfl⟩ := hb
      exact c.copy_copy v
    have hall : gathered got = recvBlocks := by
      have hsame : ∀ b ∈ gathered got, b.copy v = b := by
        intro b hb
        obtain ⟨f, hf, hb⟩ := mem_gathered hb
        exact hcopied b ((hgot f hf).1.subset hb)
      rw [map_copy_eq_self hsame] at h
      exact h
    have hfront : (got.filter Bundle.atFront).length = 1 := by
      rw [← payloadCount_gathered hone hgot, hall, hone]
    obtain ⟨f, hf, -, hfilter, hgathered⟩ := gathered_of_front hfront
    obtain ⟨hhead, htail⟩ := blocks_of_append (l := f.recvBlocks)
      (t := (got.filter Bundle.atEnd).flatMap (fun f => tailBlocks f.recvBlocks)) (hgot f hf).2
    rw [← hgathered, hall] at hhead htail
    refine ⟨hfront, fun g hg hgfront => ?_, htail.symm, hcopied⟩
    have hmem : g ∈ got.filter Bundle.atFront := List.mem_filter.mpr ⟨hg, hgfront⟩
    rw [hfilter, List.mem_singleton] at hmem
    rw [hmem, hhead]
  · rintro ⟨hfront, hheads, htails, hcopied⟩
    obtain ⟨f, hf, hffront, -, hgathered⟩ := gathered_of_front hfront
    rw [hgathered, hheads f hf hffront, htails, headBlocks_append_tailBlocks]
    exact map_copy_eq_self hcopied

end

/-! ## What `create_fragment` gives to a fragment -/

/-- The blocks for a link: their sources are received blocks in their order and of their type, and
the payload block has one. -/
structure Prepared (recvBlocks xmitBlocks : List BlockInfo) : Prop where
  sources : (xmitBlocks.filterMap BlockInfo.source).Pairwise (· < ·)
  type_eq : ∀ b ∈ xmitBlocks, ∀ i ∈ b.source, ∃ c, recvBlocks[i]? = some c ∧ c.type = b.type
  payload : recvBlocks ≠ [] → ∃ b ∈ xmitBlocks, b.type = .payload ∧ b.source.isSome

/-- A fragment that is made of a whole bundle, with the blocks of a link. -/
def MadeFrom (orig f : Bundle) : Prop :=
  ∃ (r : FragmentRequest) (offset : ℕ) (first last : Bool), r.bundle = orig ∧
    Prepared orig.recvBlocks r.xmitBlocks ∧ r.createFragment offset first last = .ok f

theorem selectBlocks_sublist (first last found : Bool) (blocks : List BlockInfo) :
    (selectBlocks first last found blocks).Sublist blocks := by
  induction blocks generalizing found with
  | nil => exact List.Sublist.refl _
  | cons b blocks ih =>
    rw [selectBlocks]
    split_ifs
    · exact (ih _).cons_cons b
    · exact (ih _).cons b

theorem payload_mem_selectBlocks {first last found : Bool} {blocks : List BlockInfo} {b : BlockInfo}
    (hb : b ∈ blocks) (hp : b.type = .payload) : b ∈ selectBlocks first last found blocks := by
  induction blocks generalizing found with
  | nil => cases hb
  | cons c blocks ih =>
    rw [selectBlocks]
    rcases List.mem_cons.mp hb with rfl | hb
    · rw [if_pos (by simp [inFragment, hp])]
      exact List.mem_cons_self
    · split_ifs
      · exact List.mem_cons_of_mem _ (ih hb)
      · exact ih hb

theorem filterMap_getElem_range {α : Type} (l : List α) :
    (List.range l.length).filterMap (fun i => l[i]?) = l := by
  induction l with
  | nil => rfl
  | cons a l ih =>
    rw [List.length_cons, List.range_succ_eq_map,
      List.filterMap_cons_some (show (a :: l)[0]? = some a from rfl), List.filterMap_map]
    congr 1

/-- Members at increasing places. -/
theorem filterMap_getElem_sublist {α : Type} (l : List α) {is : List ℕ} (his : is.Pairwise (· < ·)) :
    (is.filterMap fun i => l[i]?).Sublist l := by
  have hin : (is.filter (· < l.length)).Sublist (List.range l.length) := by
    apply List.sublist_of_subperm_of_pairwise (r := (· < ·))
    · apply List.subperm_of_subset
      · exact (his.filter _).imp fun h => h.ne
      · intro i hi
        simpa using (List.mem_filter.mp hi).2
    · exact his.filter _
    · exact List.pairwise_lt_range
  have hall := filterMap_getElem_range l
  have hsame : (is.filter (· < l.length)).filterMap (fun i => l[i]?) =
      is.filterMap fun i => l[i]? := by
    rw [List.filterMap_filter]
    apply List.filterMap_congr
    intro i _
    split_ifs with hi
    · rfl
    · simpa using hi
  rw [← hsame]
  conv_rhs => rw [← hall]
  exact hin.filterMap _

namespace FragmentRequest
variable {r : FragmentRequest} {offset : ℕ} {first last : Bool} {f : Bundle}

theorem createFragment_fragmentOf (hwhole : r.bundle.isFragment = false)
    (hsize : r.bundle.payload.length < 2 ^ 64) (h : r.createFragment offset first last = .ok f) :
    FragmentOf r.bundle f := by
  obtain ⟨length, -, hfits, rfl⟩ := createFragment_ok h
  have hlen : (slice r.bundle.payload offset length).length = length := length_slice_of_le hfits
  have hoffset : u64 (r.bundle.ownOffset + offset) = offset := by
    rw [Bundle.ownOffset, hwhole, if_neg (by simp), zero_add, u64_of_lt (by omega)]
  constructor
  · rfl
  · rfl
  · simp [Bundle.wholeLength, hwhole]
  · simp only [hoffset, hlen]
    exact hfits
  · simp only [hoffset, hlen]

theorem createFragment_carries (hp : Prepared r.bundle.recvBlocks r.xmitBlocks)
    (hne : r.bundle.recvBlocks ≠ []) (h : r.createFragment offset first last = .ok f) :
    CarriesBlocks r.bundle.recvBlocks f := by
  obtain ⟨length, -, -, rfl⟩ := createFragment_ok h
  constructor
  · have hsources : ((selectBlocks first last false r.xmitBlocks).filterMap
        BlockInfo.source).Pairwise (· < ·) :=
      hp.sources.sublist ((selectBlocks_sublist first last false _).filterMap _)
    have hsub := filterMap_getElem_sublist r.bundle.recvBlocks hsources
    rw [List.filterMap_filterMap] at hsub
    exact hsub
  · obtain ⟨b, hb, hpayload, hsource⟩ := hp.payload hne
    obtain ⟨i, hi⟩ := Option.isSome_iff_exists.mp hsource
    obtain ⟨c, hc, htype⟩ := hp.type_eq b hb i hi
    refine payloadCount_pos.mpr ⟨c, List.mem_filterMap.mpr ⟨b, ?_, ?_⟩, htype.trans hpayload⟩
    · exact payload_mem_selectBlocks hb hpayload
    · rw [hi, Option.bind_some, hc]

end FragmentRequest

/-! ## Runs -/

theorem MadeFrom.fragmentOf {orig f : Bundle} (hwhole : orig.isFragment = false)
    (hsize : orig.payload.length < 2 ^ 64) (h : MadeFrom orig f) : FragmentOf orig f := by
  obtain ⟨r, offset, first, last, rfl, -, hf⟩ := h
  exact r.createFragment_fragmentOf hwhole hsize hf

theorem MadeFrom.carries {orig f : Bundle} (hne : orig.recvBlocks ≠ []) (h : MadeFrom orig f) :
    CarriesBlocks orig.recvBlocks f := by
  obtain ⟨r, offset, first, last, rfl, hp, hf⟩ := h
  exact r.createFragment_carries hp hne hf

theorem MadeFrom.bpVersion_eq {orig f : Bundle} (h : MadeFrom orig f) :
    f.bpVersion = orig.bpVersion := by
  obtain ⟨r, offset, first, last, rfl, -, hf⟩ := h
  obtain ⟨length, -, -, rfl⟩ := FragmentRequest.createFragment_ok hf
  rfl

/-- A bundle without received blocks gives none to its fragments. -/
theorem MadeFrom.recvBlocks_eq_nil {orig f : Bundle} (hnil : orig.recvBlocks = [])
    (h : MadeFrom orig f) : f.recvBlocks = [] := by
  obtain ⟨r, offset, first, last, rfl, -, hf⟩ := h
  obtain ⟨length, -, -, rfl⟩ := FragmentRequest.createFragment_ok hf
  simp [hnil]

/-- The bundle of the state has the blocks of the fragments that wait. -/
def HoldsBlocks (orig : Bundle) (m : FragmentManager) (past : List Bundle) : Prop :=
  HoldsWaiting orig m past ∧ ∀ s ∈ m.fragmentTable.find? orig.hashKey,
    s.bundle.recvBlocks = (waiting orig past).foldl mergeBlocks []

theorem waiting_subset (orig : Bundle) (past : List Bundle) : ∀ f ∈ waiting orig past, f ∈ past := by
  induction past using List.reverseRecOn with
  | nil => simp [waiting]
  | append_singleton past f ih =>
    intro g hg
    rw [waiting_append] at hg
    split_ifs at hg
    · cases hg
    · rw [List.mem_append] at hg ⊢
      exact hg.imp (ih g) id

/-- One step: the blocks of the bundle that it posts. -/
theorem processForReassembly_blocks {orig : Bundle} (hsize : orig.payload.length < 2 ^ 64)
    {m : FragmentManager} {past : List Bundle} {f : Bundle} (h : HoldsBlocks orig m past)
    (hf : FragmentOf orig f) :
    ∃ m', processForReassembly m f = .ok m' ∧ HoldsBlocks orig m' (past ++ [f]) ∧
      (Covers ((waiting orig past ++ [f]).map Bundle.span) 0 orig.payload.length →
        ∃ b, m'.posted = b :: m.posted ∧ b.payload = orig.payload ∧
          b.recvBlocks = (waiting orig past ++ [f]).foldl mergeBlocks []) := by
  obtain ⟨hwaiting, hblocks⟩ := h
  have hstate : (m.stateFor f).bundle.recvBlocks = (waiting orig past).foldl mergeBlocks [] := by
    unfold HoldsWaiting at hwaiting
    rw [FragmentManager.stateFor, hf.hashKey_eq]
    cases hfind : m.fragmentTable.find? orig.hashKey with
    | none =>
      rw [hfind] at hwaiting
      rw [hwaiting]
      rfl
    | some s => exact hblocks s hfind
  obtain ⟨m', hstep, hwaiting', -⟩ := processForReassembly_step hsize hwaiting hf
  obtain ⟨s, htake, hg⟩ := (hwaiting.stateFor hf).take hf
  have hs : s.bundle.recvBlocks = (waiting orig past ++ [f]).foldl mergeBlocks [] := by
    rw [List.foldl_append, ← hstate]
    unfold FragmentState.take at htake
    cases hwrite : writeData (m.stateFor f).bundle.payload f.payload 0 f.payload.length
      f.fragOffset with
    | error e =>
      rw [hwrite] at htake
      cases htake
    | ok payload =>
      rw [hwrite] at htake
      cases htake
      rfl
  refine ⟨m', hstep, ⟨hwaiting', ?_⟩, ?_⟩
  all_goals
    unfold processForReassembly at hstep
    rw [if_pos hf.isFragment, htake] at hstep
    simp only [bind, Except.bind, hg.checkCompleted hsize, hf.hashKey_eq, decide_eq_true_eq] at hstep
  · rw [waiting_append]
    by_cases hc : Covers ((waiting orig past ++ [f]).map Bundle.span) 0 orig.payload.length
    · rw [if_pos hc] at hstep
      cases hstep
      simp
    · rw [if_neg hc] at hstep ⊢
      cases hstep
      simpa using hs
  · intro hc
    rw [if_pos hc] at hstep
    cases hstep
    exact ⟨s.bundle, rfl, hg.payload_eq hc, hs⟩

/-- A completed bundle has the original blocks exactly if it has none, or if the fragments that
waited have all of them once and the copies are equal. -/
theorem reassembled_blocks {orig : Bundle} (hwhole : orig.isFragment = false)
    (hsize : orig.payload.length < 2 ^ 64)
    (hone : orig.recvBlocks ≠ [] → payloadCount orig.recvBlocks = 1) {past : List Bundle} {f : Bundle}
    (hpast : ∀ g ∈ past, MadeFrom orig g) (hf : MadeFrom orig f)
    (hcovers : Covers ((waiting orig past ++ [f]).map Bundle.span) 0 orig.payload.length) :
    ∃ m m' b, run processForReassembly {} past = .ok m ∧ processForReassembly m f = .ok m' ∧
      m'.posted = b :: m.posted ∧ b.payload = orig.payload ∧
      (b.recvBlocks = orig.recvBlocks ↔
        orig.recvBlocks = [] ∨
          BlocksOnce orig.bpVersion orig.recvBlocks (waiting orig past ++ [f])) := by
  obtain ⟨m, hrun, hm⟩ := run_invariant (HoldsBlocks orig)
    (fun m past g hm hg => by
      obtain ⟨m', hstep, hm', -⟩ := processForReassembly_blocks hsize hm hg
      exact ⟨m', hstep, hm'⟩)
    (show HoldsBlocks orig {} [] from ⟨rfl, by simp⟩)
    (Meets.of_forall _ fun g hg => (hpast g hg).fragmentOf hwhole hsize)
  obtain ⟨m', hstep, -, hposted⟩ :=
    processForReassembly_blocks hsize hm (hf.fragmentOf hwhole hsize)
  obtain ⟨b, hb, hpayload, hblocks⟩ := hposted hcovers
  have hgot : ∀ g ∈ waiting orig past ++ [f], MadeFrom orig g := by
    intro g hg
    rw [List.mem_append, List.mem_singleton] at hg
    rcases hg with hg | rfl
    · exact hpast g (waiting_subset orig past g hg)
    · exact hf
  refine ⟨m, m', b, hrun, hstep, hb, hpayload, ?_⟩
  rw [hblocks, foldl_mergeBlocks fun g hg => (hgot g hg).bpVersion_eq]
  by_cases hnil : orig.recvBlocks = []
  · simp only [hnil, true_or, iff_true, List.map_eq_nil_iff]
    apply List.eq_nil_iff_forall_not_mem.mpr
    intro c hc
    obtain ⟨g, hg, hc⟩ := mem_gathered hc
    rw [(hgot g hg).recvBlocks_eq_nil hnil] at hc
    cases hc
  · rw [gathered_copies_iff (hone hnil) fun g hg => (hgot g hg).carries hnil, or_iff_right hnil]

/-- A bundle with a block in front of its payload block. -/
def listedBundle (bpVersion blockNumber : ℕ) : Bundle :=
  { bpVersion, source := "ipn:1.1", dest := "ipn:2.1", payload := [97, 98, 99, 100],
    recvBlocks := [{ type := .primary }, { type := .extension 10, contents := [10, 1, 0] },
      { type := .payload, blockNumber }] }

/-- A link takes all the blocks. -/
def listedRequest (bpVersion blockNumber : ℕ) : FragmentRequest :=
  { bundle := listedBundle bpVersion blockNumber, maxLength := 100, lastLen := 0, fields := fun _ => [],
    xmitBlocks := [{ type := .primary, source := some 0 },
      { type := .extension 10, source := some 1, contents := [10, 1, 0] },
      { type := .payload, source := some 2 }] }

/-- Its two halves. -/
def listedHalf (bpVersion blockNumber : ℕ) (first : Bool) : Bundle :=
  { listedBundle bpVersion blockNumber with
    isFragment := true, origLength := 4, fragLength := 2, fragOffset := if first then 0 else 2,
    payload := if first then [97, 98] else [99, 100],
    recvBlocks := [{ type := .primary }] ++
      (if first then [{ type := .extension 10, contents := [10, 1, 0] }] else []) ++
      [{ type := .payload, blockNumber }] }

theorem listedHalf_made {v n : ℕ} (h : (v, n) ∈ [(6, 0), (7, 1)]) (first : Bool) :
    MadeFrom (listedBundle v n) (listedHalf v n first) := by
  refine ⟨listedRequest v n, if first then 0 else 2, first, !first, rfl, ⟨?_, ?_, ?_⟩, ?_⟩
  · simp [listedRequest]
  · simp [listedRequest, listedBundle]
  · simp [listedRequest]
  · simp only [List.mem_cons, Prod.mk.injEq, List.not_mem_nil, or_false] at h
    rcases h with ⟨rfl, rfl⟩ | ⟨rfl, rfl⟩ <;> cases first <;> decide +kernel

theorem reassembled_blocks_halves :
    ∃ m m' b, run processForReassembly {} [listedHalf 6 0 false] = .ok m ∧
      processForReassembly m (listedHalf 6 0 true) = .ok m' ∧ m'.posted = b :: m.posted ∧
      b.payload = (listedBundle 6 0).payload ∧ b.recvBlocks = (listedBundle 6 0).recvBlocks := by
  have hmade := listedHalf_made (v := 6) (n := 0) (by decide)
  have hpast : ∀ g ∈ [listedHalf 6 0 false], MadeFrom (listedBundle 6 0) g := by
    simpa using hmade false
  obtain ⟨m, m', b, hrun, hstep, hposted, hpayload, hblocks⟩ :=
    @reassembled_blocks (listedBundle 6 0) rfl (by decide) (fun _ => by decide) _ _ hpast (hmade true)
      (by decide +kernel)
  refine ⟨m, m', b, hrun, hstep, hposted, hpayload, hblocks.mpr (Or.inr ?_)⟩
  constructor
  · decide +kernel
  · decide +kernel
  · decide +kernel
  · decide +kernel

/-- Each half comes once, but the payload block loses its number; and with the first half twice the
bundle has six blocks. -/
theorem reassembled_blocks_changed :
    (∀ first, MadeFrom (listedBundle 7 1) (listedHalf 7 1 first)) ∧
    (∀ first, MadeFrom (listedBundle 6 0) (listedHalf 6 0 first)) ∧
    ((run processForReassembly {} [listedHalf 7 1 true, listedHalf 7 1 false]).map
        fun m => m.posted.map fun b => b.recvBlocks.map BlockInfo.blockNumber) = .ok [[0, 0, 0]] ∧
    (listedBundle 7 1).recvBlocks.map BlockInfo.blockNumber = [0, 0, 1] ∧
    ((run processForReassembly {} [listedHalf 6 0 true, listedHalf 6 0 true,
        listedHalf 6 0 false]).map fun m => m.posted.map fun b => b.recvBlocks.length) =
      .ok [6] :=
  ⟨listedHalf_made (by decide), listedHalf_made (by decide), by decide +kernel,
    by decide, by decide +kernel⟩

end Dtnme.Bundling
