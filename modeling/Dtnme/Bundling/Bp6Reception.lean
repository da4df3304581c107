import Dtnme.Bundling.Bp6Chunks

/-! # The same bundle from any chunks

The bytes of a bundle that was accepted as a whole are blocks one after another. Given in chunks they
lead to the same bundle, unless a chunk of more than 31 bits ends within a primary block or a custody
block, or a previous hop depends on what stands in memory behind its block.
-/

namespace Dtnme.Bundling
open Library Naming

/-! ## The text of a previous hop -/

/-- The previous hop that the data of a block stands for, with the bytes behind it in memory. -/
def hopEid (parse : List UInt8 → Option Uri) (data behind : List UInt8) : Option Eid :=
  let mem := data ++ behind
  if (cstr mem 0).length = 3 then some (makeEidScheme (cstr mem 0) (cstr mem 4))
  else if (text "ipn:").isPrefixOf mem then
    if 4 < (cstr mem 0).length then some (makeEidScheme (text "ipn") (cstr mem 4)) else none
  else if (Eid.mk data).valid parse then some ⟨data⟩ else none

/-- What is read of the text ends with the data: at a zero byte, or by the length of the block. -/
def HopWithin (data : List UInt8) : Prop :=
  (0 ∈ data ∧ ((cstr data 0).length = 3 → 0 ∈ data.drop 4)) ∨
    (0 ∉ data ∧ 3 < data.length ∧ ¬ text "ipn:" <+: data)

/-- The text is accepted whatever stands behind it, if it is accepted at all. -/
def HopAccepts (parse : List UInt8 → Option Uri) (data : List UInt8) : Prop :=
  0 ∈ data ∨ 4 < data.length ∨
    (¬ data <+: text "ipn:" ∧ (3 < data.length ∨ (Eid.mk data).valid parse = true))

section
variable {parse : List UInt8 → Option Uri} {data β : List UInt8}

theorem finishPreviousHop_eq (host : Host) (index : ℕ) (b : RecvBundle) {block : RecvBlock}
    (h : block.data = block.contents.drop block.dataOffset) :
    finishPreviousHop host index b block =
      .ok ((hopEid host.parse block.data (host.behind index)).map fun e => { b with prevhop := e }) := by
  unfold finishPreviousHop hopEid
  rw [← h]
  dsimp only
  split_ifs <;> rfl

theorem length_ipn : (text "ipn:").length = 4 := by decide

theorem isPrefixOf_ipn (mem : List UInt8) :
    ((text "ipn:").isPrefixOf mem = true) = (text "ipn:" <+: mem) :=
  propext List.isPrefixOf_iff_prefix

theorem zero_notMem_ipn : (0 : UInt8) ∉ text "ipn:" := by decide

/-- The first four bytes are those of the data, or the data has a zero byte among them. -/
theorem ipn_prefix_append (h : 0 ∈ data ∨ 3 < data.length) :
    (text "ipn:" <+: data ++ β) ↔ text "ipn:" <+: data := by
  refine ⟨fun hpre => ?_, fun hpre => hpre.trans (List.prefix_append _ _)⟩
  by_cases hlen : 3 < data.length
  · exact List.prefix_of_prefix_length_le hpre (List.prefix_append _ _) (by rw [length_ipn]; omega)
  · have hmem := h.resolve_right hlen
    have hshort : data <+: text "ipn:" :=
      List.prefix_of_prefix_length_le (List.prefix_append _ _) hpre (by rw [length_ipn]; omega)
    exact absurd (hshort.subset hmem) zero_notMem_ipn

theorem cstr_of_mem (h : 0 ∈ data) (β : List UInt8) : cstr (data ++ β) 0 = cstr data 0 :=
  cstr_append_of_mem (by rwa [List.drop_zero]) β

theorem cstr_of_notMem (h : 0 ∉ data) (β : List UInt8) : cstr (data ++ β) 0 = data ++ cstr β 0 :=
  cstr_append_of_notMem (by rwa [List.drop_zero]) (Nat.zero_le _) β

/-- The end of a text is behind its first four bytes. -/
theorem mem_drop_of_long (h : 0 ∈ data) {n : ℕ} (hlen : n ≤ (cstr data 0).length) : 0 ∈ data.drop n := by
  obtain ⟨s, t, hst, hs⟩ := List.eq_append_cons_of_mem h
  rw [hst, cstr, List.drop_zero, takeWhile_string hs] at hlen
  rw [hst, List.drop_append_of_le_length hlen]
  simp

/-- A text that ends with its data does not depend on what stands behind. -/
theorem hopEid_of_within (h : HopWithin data) (β β' : List UInt8) :
    hopEid parse data β = hopEid parse data β' := by
  unfold hopEid
  simp only [isPrefixOf_ipn]
  rcases h with ⟨hmem, hthree⟩ | ⟨hmem, hlen, hpre⟩
  · rw [cstr_of_mem hmem, cstr_of_mem hmem]
    simp only [ipn_prefix_append (.inl hmem)]
    by_cases h3 : (cstr data 0).length = 3
    · rw [if_pos h3, if_pos h3, cstr_append_of_mem (hthree h3), cstr_append_of_mem (hthree h3)]
    · rw [if_neg h3, if_neg h3]
      by_cases h4 : 4 < (cstr data 0).length
      · rw [cstr_append_of_mem (mem_drop_of_long hmem h4.le), cstr_append_of_mem (mem_drop_of_long hmem h4.le)]
      · simp only [if_neg h4]
  · have hthree : ∀ β : List UInt8, ¬ (cstr (data ++ β) 0).length = 3 := fun β => by
      rw [cstr_of_notMem hmem, List.length_append]
      omega
    simp only [ipn_prefix_append (.inr hlen), if_neg (hthree _), if_neg hpre]

theorem makeEidScheme_inj {scheme s t : List UInt8} (h : makeEidScheme scheme s = makeEidScheme scheme t) :
    s = t := by
  simpa [makeEidScheme] using h

/-- A text that is read beyond its data stands for different previous hops. -/
theorem hopEid_differs (h : ¬ HopWithin data) (e : Eid) : ∃ β, hopEid parse data β ≠ some e := by
  by_contra hall
  push Not at hall
  obtain ⟨hzero, hnone⟩ := not_or.mp h
  -- two memories in which the texts differ
  suffices hdiff : ∃ β β' scheme s t, s ≠ t ∧ hopEid parse data β = some (makeEidScheme scheme s) ∧
      hopEid parse data β' = some (makeEidScheme scheme t) by
    obtain ⟨β, β', scheme, s, t, hst, hs, ht⟩ := hdiff
    rw [hall β, Option.some.injEq] at hs
    rw [hall β', Option.some.injEq] at ht
    exact hst (makeEidScheme_inj (hs.symm.trans ht))
  by_cases hmem : 0 ∈ data
  · have hthree : (cstr data 0).length = 3 := by
      by_contra hno
      exact hzero ⟨hmem, fun h3 => absurd h3 hno⟩
    have hlate : 0 ∉ data.drop 4 := fun hin => hzero ⟨hmem, fun _ => hin⟩
    have hlen : 4 ≤ data.length := by
      have hin := List.length_pos_of_mem (mem_drop_of_long hmem hthree.ge)
      rw [List.length_drop] at hin
      omega
    have hread : ∀ β, hopEid parse data β =
        some (makeEidScheme (cstr data 0) (data.drop 4 ++ cstr β 0)) := by
      intro β
      unfold hopEid
      simp only [cstr_of_mem hmem, if_pos hthree, cstr_append_of_notMem hlate hlen]
    exact ⟨[], [1], cstr data 0, _, _, by simp [cstr], hread [], hread [1]⟩
  · by_cases hlen : 3 < data.length
    · have hpre : text "ipn:" <+: data := by
        by_contra hno
        exact hnone ⟨hmem, hlen, hno⟩
      have hlate : 0 ∉ data.drop 4 := fun hin => hmem (List.mem_of_mem_drop hin)
      have hread : ∀ β, cstr β 0 ≠ [] → hopEid parse data β =
          some (makeEidScheme (text "ipn") (data.drop 4 ++ cstr β 0)) := by
        intro β hβ
        have hpos := List.length_pos_iff.mpr hβ
        unfold hopEid
        simp only [isPrefixOf_ipn, ipn_prefix_append (.inr hlen), if_pos hpre, cstr_of_notMem hmem,
          List.length_append, cstr_append_of_notMem hlate hlen]
        rw [if_neg (by omega), if_pos (by omega)]
      exact ⟨[1], [1, 1], text "ipn", _, _, by simp [cstr], hread _ (by simp [cstr]),
        hread _ (by simp [cstr])⟩
    · obtain ⟨ones, hones⟩ : ∃ ones : List UInt8, ones = List.replicate (3 - data.length) 1 := ⟨_, rfl⟩
      have hone : (0 : UInt8) ∉ data ++ ones := by
        simp [hones, hmem]
      have hthree : (data ++ ones).length = 3 := by
        rw [List.length_append, hones, List.length_replicate]
        omega
      have hread : ∀ t : List UInt8, (0 : UInt8) ∉ t → hopEid parse data (ones ++ 0 :: t) =
          some (makeEidScheme (data ++ ones) t) := by
        intro t ht
        have hfour : (data ++ (ones ++ 0 :: t)).drop 4 = t := by
          rw [← List.append_assoc, ← List.singleton_append, ← List.append_assoc]
          apply List.drop_left'
          rw [List.length_append, hthree]
          rfl
        have hall : t.takeWhile (· ≠ 0) = t :=
          List.takeWhile_eq_self_iff.mpr fun c hc => by
            simp only [ne_eq, decide_not, Bool.not_eq_eq_eq_not, Bool.not_true, decide_eq_false_iff_not]
            rintro rfl
            exact ht hc
        unfold hopEid
        simp only [cstr, hfour, hall]
        rw [List.drop_zero, ← List.append_assoc, takeWhile_string hone, if_pos hthree]
      exact ⟨ones ++ [0], ones ++ [0, 1], data ++ ones, _, _, by simp, hread [] (by simp),
        hread [1] (by simp)⟩

/-- Three cases of `hopEid`. -/
theorem hopEid_isSome_iff : (hopEid parse data β).isSome ↔
    ((cstr (data ++ β) 0).length = 3 ∨
      ((text "ipn:" <+: data ++ β) ∧ 4 < (cstr (data ++ β) 0).length) ∨
      ((¬ text "ipn:" <+: data ++ β) ∧ (Eid.mk data).valid parse = true)) := by
  unfold hopEid
  simp only [isPrefixOf_ipn]
  split_ifs with h3 hpre hlen hvalid <;> simp_all

theorem hopEid_isSome_of_accepts (h : HopAccepts parse data) (hβ : (hopEid parse data β).isSome)
    (β' : List UInt8) : (hopEid parse data β').isSome := by
  rw [hopEid_isSome_iff] at hβ ⊢
  by_cases hmem : 0 ∈ data
  · rw [cstr_of_mem hmem, ipn_prefix_append (.inl hmem)] at hβ ⊢
    exact hβ
  · by_cases hlen : 3 < data.length
    · have hlong : ∀ β, data.length ≤ (cstr (data ++ β) 0).length := fun β => by
        rw [cstr_of_notMem hmem, List.length_append]
        omega
      have hb := hlong β
      have hb' := hlong β'
      rw [ipn_prefix_append (.inr hlen)] at hβ ⊢
      by_cases hpre : text "ipn:" <+: data
      · have hfive : 4 < data.length := by
          rcases h with hin | h5 | ⟨hno, -⟩
          · exact absurd hin hmem
          · exact h5
          · by_contra hle
            refine hno ?_
            rw [hpre.eq_of_length (by rw [length_ipn]; omega)]
        exact .inr (.inl ⟨hpre, by omega⟩)
      · refine .inr (.inr ⟨hpre, ?_⟩)
        rcases hβ with h3 | ⟨hc, -⟩ | ⟨-, hvalid⟩
        · omega
        · exact absurd hc hpre
        · exact hvalid
    · rcases h with hin | h5 | ⟨hno, hor⟩
      · exact absurd hin hmem
      · omega
      · refine .inr (.inr ⟨fun hc => hno ?_, hor.resolve_left hlen⟩)
        exact List.prefix_of_prefix_length_le (List.prefix_append _ _) hc (by rw [length_ipn]; omega)

/-- A text that is not always accepted is in error with some bytes behind it. -/
theorem hopEid_rejects (h : ¬ HopAccepts parse data) : ∃ β, hopEid parse data β = none := by
  obtain ⟨hmem, hrest⟩ := not_or.mp h
  obtain ⟨hlen, hnone⟩ := not_or.mp hrest
  by_cases hpre : data <+: text "ipn:"
  · obtain ⟨t, ht⟩ := hpre
    refine ⟨t ++ [0], ?_⟩
    unfold hopEid
    rw [← List.append_assoc, ht]
    rfl
  · have hbad : ¬ (3 < data.length ∨ (Eid.mk data).valid parse = true) := fun hc => hnone ⟨hpre, hc⟩
    obtain ⟨hshort, hvalid⟩ := not_or.mp hbad
    refine ⟨[1, 1, 1, 1], ?_⟩
    have hno : ¬ text "ipn:" <+: data ++ [1, 1, 1, 1] := fun hc =>
      hpre (List.prefix_of_prefix_length_le (List.prefix_append _ _) hc (by rw [length_ipn]; omega))
    unfold hopEid
    simp only [isPrefixOf_ipn, cstr_of_notMem hmem, if_neg hno, if_neg hvalid]
    rw [if_neg]
    simp [cstr]

end

/-! ## What a block does not read -/

/-- The bundle with other blocks and another previous hop. -/
def RecvBundle.framed (b : RecvBundle) (blocks : List RecvBlock) (prevhop : Eid) : RecvBundle :=
  { b with blocks := blocks, prevhop := prevhop }

section
variable {host host' : Host} {b : RecvBundle} {owner : Processor} {p : Preamble} {z x y r : List UInt8}
  {blocks : List RecvBlock} {e : Eid}

theorem RecvBundle.framed_self (b : RecvBundle) : b.framed b.blocks b.prevhop = b := rfl

theorem partOf_framed : partOf (b.framed blocks e) owner p x =
    ((partOf b owner p x).1, (partOf b owner p x).2.framed blocks e) := by
  unfold partOf RecvBundle.payloadUpTo
  split_ifs <;> rfl

theorem partOf_prevhop : (partOf b owner p x).2.prevhop = b.prevhop := by
  unfold partOf RecvBundle.payloadUpTo
  split_ifs <;> rfl

theorem BlockImage.framed (h : BlockImage host b owner p z) (blocks : List RecvBlock) (e : Eid) :
    BlockImage host (b.framed blocks e) owner p z := ⟨⟨h.parsed, h.near⟩, h.length_eq, h.fits, h.payload⟩

/-- Only a previous hop block changes the previous hop, and none reads it or the blocks. -/
theorem finishOwner_framed (host host' : Host) (b : RecvBundle) (blocks : List RecvBlock) (e : Eid)
    (index index' : ℕ) {block : RecvBlock} (ho : block.owner ≠ .previousHop) :
    finishOwner host' index' (b.framed blocks e) block =
      (finishOwner host index b block).map (Option.map fun b' => b'.framed blocks e) := by
  unfold finishOwner
  cases howner : block.owner with
  | previousHop => exact absurd howner ho
  | primary =>
    have hdict : (b.framed blocks e).dict = b.dict := rfl
    have hfields : (b.framed blocks e).fields = b.fields := rfl
    simp only [bind, Except.bind, hdict, hfields]
    cases require (block.fullLength = block.contents.length) with
    | error e => rfl
    | ok u =>
      dsimp only
      cases parsePrimary b.dict b.fields block with
      | error e => rfl
      | ok r => cases r <;> rfl
  | payload => rfl
  | unknown => rfl
  | metadata =>
    unfold finishMetadata
    simp only [bind, Except.bind]
    cases require (block.owner = .metadata) with
    | error e => rfl
    | ok u =>
      cases require (block.type = 0x08) with
      | error e => rfl
      | ok u =>
        cases require (block.complete = true) with
        | error e => rfl
        | ok u => cases require (0 < block.dataOffset) <;> rfl
  | custodyTransferEnhancement =>
    unfold finishCteb
    change (if b.ctebValid = true then _ else _) = _
    split_ifs
    · rfl
    · cases ctebCreator block <;> rfl
  | extendedClassOfService =>
    unfold finishEcos
    dsimp only
    split
    · split_ifs
      · rfl
      · split <;> rfl
      · rfl
    · rfl
  | imcState =>
    dsimp only [finishImcState]
    cases readImcState block.data with
    | none => rfl
    | some v =>
      obtain ⟨nodes, regions, rest⟩ := v
      simp only [bind, Except.bind]
      cases require (rest = []) <;> rfl

/-- What a processor leaves as it was. -/
theorem finishOwner_frame {index : ℕ} {block : RecvBlock} {b' : RecvBundle}
    (h : finishOwner host index b block = .ok (some b')) (ho : block.owner ≠ .previousHop) :
    b'.prevhop = b.prevhop := by
  have hframe := finishOwner_framed host host b b.blocks b.prevhop index index ho
  rw [b.framed_self, h] at hframe
  simp only [Except.map, Option.map_some, Except.ok.injEq, Option.some.injEq] at hframe
  rw [hframe]
  rfl

/-- No processor looks at the blocks of the bundle. -/
theorem finishOwner_blocks (host : Host) (index : ℕ) (b : RecvBundle) (block : RecvBlock)
    (blocks : List RecvBlock) : finishOwner host index (b.framed blocks b.prevhop) block =
      (finishOwner host index b block).map (Option.map fun b' => b'.framed blocks b'.prevhop) := by
  by_cases ho : block.owner = .previousHop
  · unfold finishOwner finishPreviousHop
    simp only [ho]
    split_ifs <;> rfl
  · rw [finishOwner_framed host host b blocks b.prevhop index index ho]
    cases hc : finishOwner host index b block with
    | error e => rfl
    | ok c =>
      cases c with
      | none => rfl
      | some b' =>
        have := finishOwner_frame hc ho
        simp only [Except.map, Option.map_some, this]

end

/-! ## A block of a bundle -/

/-- The bundle when the bytes `x` of the next block have come. -/
def midBlock (b : RecvBundle) (owner : Processor) (p : Preamble) (x : List UInt8) : RecvBundle :=
  if x = [] then b
  else (partOf b owner p x).2.framed (b.blocks ++ [(partOf b owner p x).1]) b.prevhop

/-- A block that starts here with the bytes `z`. -/
structure Opens (host : Host) (b : RecvBundle) (owner : Processor) (p : Preamble) (z : List UInt8)
    (last : Bool) : Prop extends BlockImage host b owner p z where
  new : b.current (z.headD 0) = (b.blocks, { owner := owner })
  room : owner ≠ .payload → last = false → p.blockLen = 0 → p.offset < 64

/-- A block that is accepted, and the bundle with it. -/
structure Tile (host : Host) (b : RecvBundle) (owner : Processor) (p : Preamble) (z : List UInt8)
    (last : Bool) (b' : RecvBundle) : Prop extends Opens host b owner p z last where
  finish : ∃ c, finishOwner host b.blocks.length (partOf b owner p z).2 (partOf b owner p z).1 =
    .ok (some c) ∧ b' = c.framed (b.blocks ++ [(partOf b owner p z).1]) c.prevhop
  lastBlock : (partOf b owner p z).1.lastBlock = .ok last

section
variable {host : Host} {b b' : RecvBundle} {owner : Processor} {p : Preamble} {z x y r : List UInt8}
  {last : Bool}

theorem midBlock_nil (b : RecvBundle) (owner : Processor) (p : Preamble) : midBlock b owner p [] = b :=
  if_pos rfl

theorem midBlock_of_ne (b : RecvBundle) (owner : Processor) (p : Preamble) (hx : x ≠ []) :
    midBlock b owner p x =
      (partOf b owner p x).2.framed (b.blocks ++ [(partOf b owner p x).1]) b.prevhop := if_neg hx

theorem BlockImage.length_pos (h : BlockImage host b owner p z) : 0 < z.length := by
  have hbound := preamble_bound h.parsed
  omega

theorem BlockImage.partOf_nil (h : BlockImage host b owner p z) :
    partOf b owner p [] = ({ owner := owner }, b) := by
  have hpos : ([] : List UInt8).length < p.offset := by
    have := (preamble_bound h.parsed).1
    rw [List.length_nil]
    omega
  unfold partOf
  split_ifs with ho
  · rw [RecvBlock.payloadUpTo_of_lt _ hpos, RecvBlock.upTo_of_lt _ hpos, b.payloadUpTo_of_le hpos.le, ho]
  · rw [RecvBlock.upTo_of_lt _ hpos]

/-- The bundle within a block, as its processor sees it. -/
theorem BlockImage.midBlock_eq (h : BlockImage host b owner p z) (x : List UInt8) : ∃ blocks,
    midBlock b owner p x = (partOf (b.framed blocks b.prevhop) owner p x).2 := by
  by_cases hx : x = []
  · refine ⟨b.blocks, ?_⟩
    rw [hx, midBlock_nil, b.framed_self, h.partOf_nil]
  · exact ⟨_, by rw [midBlock_of_ne b owner p hx, partOf_framed]⟩

/-- The block that the next bytes are for. -/
theorem Opens.current_eq (h : Opens host b owner p z last) (hx : x.length < z.length) (hz : x ++ y <+: z)
    (hy : y ≠ []) (r : List UInt8) :
    (midBlock b owner p x).current ((y ++ r).headD 0) = (b.blocks, (partOf b owner p x).1) := by
  by_cases hnil : x = []
  · obtain ⟨v, y, rfl⟩ := List.exists_cons_of_ne_nil hy
    obtain ⟨rest, rfl⟩ := hz
    have hnew := h.new
    rw [hnil, List.nil_append, List.cons_append, List.headD_cons] at hnew
    rw [hnil, midBlock_nil, h.partOf_nil, List.cons_append, List.headD_cons, hnew]
  · rw [midBlock_of_ne b owner p hnil]
    simp only [RecvBundle.current, RecvBundle.framed, List.getLast?_append, List.getLast?_singleton,
      Option.some_or, h.incomplete hx, Bool.false_eq_true, if_false, List.dropLast_concat]

/-- A round with bytes within the block. -/
theorem Opens.round_waits (h : Opens host b owner p z last) (hz : x ++ y <+: z)
    (hlt : (x ++ y).length < z.length) (hy : y ≠ []) (hnarrow : owner.narrow → y.length < 2 ^ 31) :
    consumeRound host (midBlock b owner p x) y =
      .ok (some y.length, (partOf b owner p (x ++ y)).1, midBlock b owner p (x ++ y)) := by
  have hx : x.length < z.length := by
    rw [List.length_append] at hlt
    omega
  obtain ⟨blocks, hmid⟩ := h.midBlock_eq x
  have hcurrent := h.current_eq hx hz hy []
  rw [List.append_nil] at hcurrent
  have howner := consumeOwner_waits b.blocks.length (h.framed blocks b.prevhop) hz hlt
    hnarrow
  rw [partOf_framed, partOf_framed] at howner
  rw [partOf_framed] at hmid
  rw [consumeRound, hcurrent]
  simp only [bind, Except.bind]
  rw [hmid, howner, midBlock_of_ne b owner p (by simp [hy])]
  rfl

/-- A round with the last bytes of the block. -/
theorem Opens.round_ends (h : Opens host b owner p z last) (hx : x.length < z.length) (hz : x ++ y = z)
    (hr : r ≠ [] → last = false) {c : Option RecvBundle}
    (hc : finishOwner host b.blocks.length (partOf b owner p z).2 (partOf b owner p z).1 = .ok c) :
    ∃ d, consumeRound host (midBlock b owner p x) (y ++ r) =
      .ok (c.map fun _ => y.length, (partOf b owner p z).1, d) ∧
      ∀ c', c = some c' → d = c'.framed (b.blocks ++ [(partOf b owner p z).1]) c'.prevhop := by
  have hy : y ≠ [] := by
    rintro rfl
    rw [List.append_nil] at hz
    rw [hz] at hx
    omega
  obtain ⟨blocks, hmid⟩ := h.midBlock_eq x
  have hcurrent := h.current_eq hx (hz ▸ List.prefix_rfl) hy r
  have howner := consumeOwner_ends (r := r) b.blocks.length
    (h.framed blocks b.prevhop) hx hz fun ho hne => h.room ho (hr hne)
  have hfinish := finishOwner_blocks host b.blocks.length (partOf b owner p z).2 (partOf b owner p z).1
    blocks
  rw [partOf_prevhop, hc] at hfinish
  rw [partOf_framed, partOf_framed, hfinish] at howner
  rw [partOf_framed] at hmid
  rw [consumeRound, hcurrent]
  simp only [bind, Except.bind]
  rw [hmid, howner]
  cases c with
  | none => exact ⟨_, rfl, fun c' hc' => nomatch hc'⟩
  | some c' =>
    refine ⟨_, rfl, fun d hd => ?_⟩
    cases hd
    rfl

theorem Tile.round_ends (h : Tile host b owner p z last b') (hx : x.length < z.length) (hz : x ++ y = z)
    (hr : r ≠ [] → last = false) : consumeRound host (midBlock b owner p x) (y ++ r) =
      .ok (some y.length, (partOf b owner p z).1, b') := by
  obtain ⟨c, hc, hb'⟩ := h.finish
  obtain ⟨d, hround, hd⟩ := h.toOpens.round_ends hx hz hr hc
  rw [hround, hd c rfl, hb']
  rfl

/-! ## The loop within a block -/

theorem Opens.loop_waits (h : Opens host b owner p z last) (hz : x ++ y <+: z)
    (hlt : (x ++ y).length < z.length) (hy : y ≠ []) (hnarrow : owner.narrow → y.length < 2 ^ 31)
    {fuel : ℕ} (hfuel : y.length < fuel) (consumed : ℕ) :
    consumeLoop host fuel (midBlock b owner p x) y consumed =
      .ok (some (consumed + y.length), false, midBlock b owner p (x ++ y)) := by
  have hpos := List.length_pos_iff.mpr hy
  obtain ⟨fuel, rfl⟩ : ∃ f, fuel = f + 2 := ⟨fuel - 2, by omega⟩
  rw [consumeLoop, if_neg hy, h.round_waits hz hlt hy hnarrow]
  simp only [bind, Except.bind, List.drop_length, roundEnds, h.incomplete hlt, Bool.false_eq_true,
    if_false, require_of, pure, Except.pure]
  rw [consumeLoop, if_pos rfl]

theorem Tile.loop_ends (h : Tile host b owner p z last b') (hx : x.length < z.length) (hz : x ++ y = z)
    (hr : r ≠ [] → last = false) (fuel consumed : ℕ) :
    consumeLoop host (fuel + 1) (midBlock b owner p x) (y ++ r) consumed =
      if last then .ok (some (consumed + y.length), true, b')
      else consumeLoop host fuel b' r (consumed + y.length) := by
  have hy : y ++ r ≠ [] := by
    intro hnil
    obtain ⟨rfl, rfl⟩ := List.append_eq_nil_iff.mp hnil
    rw [List.append_nil] at hz
    rw [hz] at hx
    omega
  rw [consumeLoop, if_neg hy, h.round_ends hx hz hr]
  simp only [bind, Except.bind, List.drop_left, roundEnds, h.complete, if_true, h.lastBlock]
  rfl

/-- A block that its processor rejects ends the reception. -/
theorem Opens.loop_rejects (h : Opens host b owner p z last) (hx : x.length < z.length) (hz : x ++ y = z)
    (hr : r ≠ [] → last = false)
    (hc : finishOwner host b.blocks.length (partOf b owner p z).2 (partOf b owner p z).1 = .ok none)
    (fuel consumed : ℕ) : ∃ d,
    consumeLoop host (fuel + 1) (midBlock b owner p x) (y ++ r) consumed = .ok (none, false, d) := by
  have hy : y ++ r ≠ [] := by
    intro hnil
    obtain ⟨rfl, rfl⟩ := List.append_eq_nil_iff.mp hnil
    rw [List.append_nil] at hz
    rw [hz] at hx
    omega
  obtain ⟨d, hround, -⟩ := h.round_ends hx hz hr hc
  rw [consumeLoop, if_neg hy, hround]
  exact ⟨d, rfl⟩

end

/-! ## Chunks -/

/-- What is returned for each chunk, until an error or the end of the bundle, and the bundle. -/
def receiveChunks (host : Host) : RecvBundle → List (List UInt8) →
    Except Fault (List (Option ℕ × Bool) × RecvBundle)
  | b, [] => .ok ([], b)
  | b, chunk :: chunks => do
    let (r, last, b) ← consume host b chunk
    if r.isNone || last then pure ([(r, last)], b)
    else do
      let (rs, b) ← receiveChunks host b chunks
      pure ((r, last) :: rs, b)

/-- Every chunk is used, and the bundle is complete with the last one. -/
def accepted : List (List UInt8) → List (Option ℕ × Bool)
  | [] => []
  | [chunk] => [(some chunk.length, true)]
  | chunk :: chunks => (some chunk.length, false) :: accepted chunks

/-- A cut of bytes into chunks that are not empty. -/
structure IsCut (data : List UInt8) (chunks : List (List UInt8)) : Prop where
  flatten : chunks.flatten = data
  ne_nil : [] ∉ chunks

section
variable {host : Host} {b b' f : RecvBundle} {owner : Processor} {p : Preamble}
  {z x y r data : List UInt8} {last : Bool} {chunk : List UInt8} {chunks : List (List UInt8)}

theorem IsCut.tail (h : IsCut data (chunk :: chunks)) : IsCut chunks.flatten chunks :=
  ⟨rfl, fun hin => h.ne_nil (List.mem_cons_of_mem _ hin)⟩

theorem IsCut.nonempty (h : IsCut data chunks) (hd : data ≠ []) : chunks ≠ [] := by
  rintro rfl
  exact hd h.flatten.symm

theorem IsCut.eq_nil (h : IsCut [] chunks) : chunks = [] := by
  cases chunks with
  | nil => rfl
  | cons c cs =>
    have hnil := h.flatten
    rw [List.flatten_cons, List.append_eq_nil_iff] at hnil
    exact absurd (hnil.1 ▸ List.mem_cons_self) h.ne_nil

theorem accepted_cons (hne : chunks ≠ []) :
    accepted (chunk :: chunks) = (some chunk.length, false) :: accepted chunks := by
  obtain ⟨c, cs, rfl⟩ := List.exists_cons_of_ne_nil hne
  rfl

/-- A chunk within the bundle. -/
theorem receiveChunks_cons (hc : consume host b chunk = .ok (some chunk.length, false, b'))
    (hne : chunks ≠ []) :
    receiveChunks host b (chunk :: chunks) = .ok (accepted (chunk :: chunks), f) ↔
      receiveChunks host b' chunks = .ok (accepted chunks, f) := by
  rw [receiveChunks, hc, accepted_cons hne]
  simp only [bind, Except.bind, Option.isNone_some, Bool.or_self, Bool.false_eq_true, if_false]
  cases receiveChunks host b' chunks with
  | error e => exact ⟨fun h => (nomatch h), fun h => (nomatch h)⟩
  | ok v => simp [pure, Except.pure, Prod.ext_iff]

/-- The last chunk. -/
theorem receiveChunks_last (hc : consume host b chunk = .ok (some chunk.length, true, f)) :
    receiveChunks host b [chunk] = .ok (accepted [chunk], f) := by
  rw [receiveChunks, hc]
  rfl

/-- More fuel does not change what the loop returns. -/
theorem consumeLoop_mono {fuel k : ℕ} : ∀ {b : RecvBundle} {data : List UInt8} {consumed : ℕ}
    {v : Option ℕ × Bool × RecvBundle}, consumeLoop host fuel b data consumed = .ok v →
      consumeLoop host (fuel + k) b data consumed = .ok v := by
  induction fuel with
  | zero => intro b data consumed v h; simp [consumeLoop] at h
  | succ fuel ih =>
    intro b data consumed v h
    rw [Nat.succ_add, consumeLoop]
    rw [consumeLoop] at h
    by_cases hd : data = []
    · rw [if_pos hd] at h ⊢
      exact h
    · rw [if_neg hd] at h ⊢
      simp only [bind, Except.bind] at h ⊢
      cases hround : consumeRound host b data with
      | error e =>
        rw [hround] at h
        cases h
      | ok w =>
        obtain ⟨cc, block, b'⟩ := w
        rw [hround] at h
        cases cc with
        | none => exact h
        | some cc =>
          dsimp only at h ⊢
          cases hends : roundEnds block (data.drop cc) with
          | error e =>
            rw [hends] at h
            cases h
          | ok last =>
            rw [hends] at h
            cases last with
            | true => exact h
            | false => exact ih h

/-- The bytes used before are only added. -/
theorem consumeLoop_shift (k : ℕ) (fuel : ℕ) : ∀ (b : RecvBundle) (data : List UInt8) (consumed : ℕ),
    consumeLoop host fuel b data (k + consumed) =
      (consumeLoop host fuel b data consumed).map fun v => (v.1.map (k + ·), v.2) := by
  induction fuel with
  | zero => intro b data consumed; rfl
  | succ fuel ih =>
    intro b data consumed
    rw [consumeLoop, consumeLoop]
    by_cases hd : data = []
    · rw [if_pos hd, if_pos hd]
      rfl
    · rw [if_neg hd, if_neg hd]
      simp only [bind, Except.bind]
      cases consumeRound host b data with
      | error e => rfl
      | ok w =>
        obtain ⟨cc, block, b'⟩ := w
        cases cc with
        | none => rfl
        | some cc =>
          dsimp only
          cases roundEnds block (data.drop cc) with
          | error e => rfl
          | ok last =>
            cases last with
            | true =>
              simp only [if_true, Nat.add_assoc]
              rfl
            | false => simp only [Bool.false_eq_true, if_false, Nat.add_assoc, ih]

/-- A chunk within the block, and the ones behind it. -/
theorem Opens.receive_waits (h : Opens host b owner p z last) (hz : x ++ chunk <+: z)
    (hlt : (x ++ chunk).length < z.length) (hc : chunk ≠ [])
    (hnarrow : owner.narrow → chunk.length < 2 ^ 31) :
    receiveChunks host (midBlock b owner p x) (chunk :: chunks) =
      (receiveChunks host (midBlock b owner p (x ++ chunk)) chunks).map fun v =>
        ((some chunk.length, false) :: v.1, v.2) := by
  have hloop := h.loop_waits hz hlt hc hnarrow (Nat.lt_succ_self _) 0
  rw [Nat.zero_add] at hloop
  rw [receiveChunks, consume, hloop]
  simp only [bind, Except.bind, Option.isNone_some, Bool.or_self, Bool.false_eq_true, if_false]
  cases receiveChunks host (midBlock b owner p (x ++ chunk)) chunks <;> rfl

/-- The first chunk either ends within the block, or it has the rest of the block and more. -/
theorem IsCut.first (h : IsCut (z.drop x.length ++ r) (chunk :: chunks)) (hx : x <+: z) :
    (x ++ chunk <+: z ∧ (x ++ chunk).length < z.length ∧ chunk ≠ [] ∧
        IsCut (z.drop (x ++ chunk).length ++ r) chunks) ∨
      ∃ s, chunk = z.drop x.length ++ s ∧ s ++ chunks.flatten = r := by
  have hflat := h.flatten
  have hne : chunk ≠ [] := fun hnil => h.ne_nil (hnil ▸ List.mem_cons_self)
  obtain ⟨t, rfl⟩ := hx
  rw [List.flatten_cons, List.drop_left] at hflat
  rcases List.append_eq_append_iff.mp hflat with ⟨u, hu, hr⟩ | ⟨u, hu, hr⟩
  · by_cases hnil : u = []
    · refine .inr ⟨[], ?_, ?_⟩
      · rw [List.drop_left, hu, hnil, List.append_nil, List.append_nil]
      · rw [hr, hnil, List.nil_append, List.nil_append]
    · refine .inl ⟨?_, ?_, hne, ?_, h.tail.ne_nil⟩
      · rw [hu, ← List.append_assoc]
        exact List.prefix_append _ _
      · have := List.length_pos_iff.mpr hnil
        rw [hu]
        simp only [List.length_append]
        omega
      · rw [hu, ← List.append_assoc, List.drop_left, hr]
  · exact .inr ⟨u, by rw [List.drop_left, hu], hr.symm⟩

/-- An answer to the chunks of a bundle says that it is in error. -/
def Rejected (rs : List (Option ℕ × Bool)) : Prop := (none, false) ∈ rs

/-- What is returned for a chunk that starts with bytes of the block before. -/
theorem receiveChunks_first {s : RecvBundle} {k : ℕ} {rs : List (Option ℕ × Bool)}
    (hs : ∀ v, consume host b' data = .ok v → consume host s chunk = .ok (v.1.map (k + ·), v.2))
    (hlen : chunk.length = k + data.length)
    (h : receiveChunks host b' (data :: chunks) = .ok (rs, f)) :
    ∃ rs', receiveChunks host s (chunk :: chunks) = .ok (rs', f) ∧
      (rs = accepted (data :: chunks) → rs' = accepted (chunk :: chunks)) ∧
      (Rejected rs → Rejected rs') := by
  rw [receiveChunks] at h ⊢
  cases hc : consume host b' data with
  | error e =>
    rw [hc] at h
    cases h
  | ok w =>
    obtain ⟨v, l, d⟩ := w
    rw [hs _ hc]
    rw [hc] at h
    simp only [bind, Except.bind] at h ⊢
    have hnone : (v.map (k + ·)).isNone = v.isNone := by cases v <;> rfl
    rw [hnone]
    have hhead : ∀ tail tail' : List (Option ℕ × Bool), Rejected ((v, l) :: tail) →
        tail' = tail → Rejected ((v.map (k + ·), l) :: tail') := by
      rintro tail tail' hrej rfl
      rcases List.mem_cons.mp hrej with hin | hin
      · cases hin
        exact List.mem_cons_self
      · exact List.mem_cons_of_mem _ hin
    have hacc : ∀ tail : List (Option ℕ × Bool), (v, l) :: tail = accepted (data :: chunks) →
        (v.map (k + ·), l) :: tail = accepted (chunk :: chunks) := by
      intro tail htail
      cases chunks with
      | nil =>
        cases htail
        rw [accepted, Option.map_some, hlen]
      | cons c cs =>
        rw [accepted_cons (List.cons_ne_nil c cs)] at htail
        cases htail
        rw [accepted_cons (List.cons_ne_nil c cs), Option.map_some, hlen]
    by_cases hstop : (v.isNone || l) = true
    · rw [if_pos hstop] at h ⊢
      cases h
      exact ⟨_, rfl, hacc [], fun hrej => hhead [] [] hrej rfl⟩
    · rw [if_neg hstop] at h ⊢
      cases hrest : receiveChunks host d chunks with
      | error e =>
        rw [hrest] at h
        cases h
      | ok w =>
        rw [hrest] at h
        cases h
        exact ⟨_, rfl, hacc w.1, fun hrej => hhead w.1 w.1 hrej rfl⟩

/-- Chunks from within a block on are answered like those of the bytes behind the block. -/
theorem Tile.receive_next (h : Tile host b owner p z false b') (hr : r ≠ [])
    (hnarrow : owner.narrow → z.length ≤ 2 ^ 31) : ∀ {chunks : List (List UInt8)} {x : List UInt8},
    x.length < z.length → x <+: z → IsCut (z.drop x.length ++ r) chunks →
      ∃ chunks', IsCut r chunks' ∧ ∀ rs f, receiveChunks host b' chunks' = .ok (rs, f) →
        ∃ rs', receiveChunks host (midBlock b owner p x) chunks = .ok (rs', f) ∧
          (rs = accepted chunks' → rs' = accepted chunks) ∧ (Rejected rs → Rejected rs') := by
  intro chunks
  induction chunks with
  | nil =>
    intro x hx _ hcut
    have hnil := congrArg List.length hcut.flatten
    rw [List.flatten_nil, List.length_nil, List.length_append, List.length_drop] at hnil
    omega
  | cons chunk chunks ih =>
    intro x hx hpre hcut
    rcases hcut.first hpre with ⟨hz, hlt, hne, hrest⟩ | ⟨s, hs, hflat⟩
    · obtain ⟨chunks', hcut', hall⟩ := ih hlt hz hrest
      have hshort : owner.narrow → chunk.length < 2 ^ 31 := fun ho => by
        have := hnarrow ho
        rw [List.length_append] at hlt
        omega
      refine ⟨chunks', hcut', fun rs f hrs => ?_⟩
      obtain ⟨rs', hrs', hacc, hrej⟩ := hall rs f hrs
      have hcs : chunks ≠ [] := hrest.nonempty (by simp [hr])
      rw [h.receive_waits hz hlt hne hshort, hrs']
      refine ⟨_, rfl, fun heq => ?_, fun hin => List.mem_cons_of_mem _ (hrej hin)⟩
      rw [accepted_cons hcs, hacc heq]
    · have hall : x ++ z.drop x.length = z := by
        obtain ⟨t, rfl⟩ := hpre
        rw [List.drop_left]
      have hypos : 0 < (z.drop x.length).length := by
        rw [List.length_drop]
        omega
      have hloop := h.loop_ends (r := s) hx hall (fun _ => rfl) chunk.length 0
      rw [← hs, Nat.zero_add, if_neg Bool.false_ne_true] at hloop
      have hlen : chunk.length = (z.drop x.length).length + s.length := by
        rw [hs, List.length_append]
      by_cases hsnil : s = []
      · rw [hsnil, List.length_nil, Nat.add_zero] at hlen
        rw [hsnil, List.nil_append] at hflat
        have hcs : chunks ≠ [] := by
          rintro rfl
          exact hr hflat.symm
        have hone : consume host (midBlock b owner p x) chunk = .ok (some chunk.length, false, b') := by
          rw [consume, hloop, hsnil, ← hlen]
          obtain ⟨fuel, hfuel⟩ : ∃ fuel, chunk.length = fuel + 1 := ⟨chunk.length - 1, by omega⟩
          rw [hfuel, consumeLoop, if_pos rfl]
        refine ⟨chunks, ⟨hflat, hcut.tail.ne_nil⟩, fun rs f hrs => ?_⟩
        rw [receiveChunks, hone]
        simp only [bind, Except.bind, Option.isNone_some, Bool.or_self, Bool.false_eq_true, if_false, hrs]
        refine ⟨_, rfl, fun heq => ?_, fun hin => List.mem_cons_of_mem _ hin⟩
        rw [accepted_cons hcs, heq]
      · refine ⟨s :: chunks, ⟨hflat, ?_⟩, fun rs f hrs => receiveChunks_first (fun v hv => ?_) hlen hrs⟩
        · rintro hin
          rcases List.mem_cons.mp hin with hnil | hin
          · exact hsnil hnil.symm
          · exact hcut.tail.ne_nil hin
        · obtain ⟨k, hk⟩ : ∃ k, chunk.length = s.length + 1 + k := ⟨chunk.length - (s.length + 1), by omega⟩
          have hmono := consumeLoop_mono (k := k) hv
          rw [consume, hloop, ← Nat.add_zero (z.drop x.length).length, consumeLoop_shift, hk, hmono]
          rfl

/-- Chunks from within the last block on. -/
theorem Tile.receive_last (h : Tile host b owner p z true b')
    (hnarrow : owner.narrow → z.length ≤ 2 ^ 31) : ∀ {chunks : List (List UInt8)} {x : List UInt8},
    x.length < z.length → x <+: z → IsCut (z.drop x.length) chunks →
      receiveChunks host (midBlock b owner p x) chunks = .ok (accepted chunks, b') := by
  intro chunks
  induction chunks with
  | nil =>
    intro x hx _ hcut
    have hnil := congrArg List.length hcut.flatten
    rw [List.flatten_nil, List.length_nil, List.length_drop] at hnil
    omega
  | cons chunk chunks ih =>
    intro x hx hpre hcut
    have hcut' := hcut
    rw [← List.append_nil (z.drop x.length)] at hcut'
    rcases hcut'.first hpre with ⟨hz, hlt, hne, hrest⟩ | ⟨s, hs, hflat⟩
    · have hshort : owner.narrow → chunk.length < 2 ^ 31 := fun ho => by
        have := hnarrow ho
        rw [List.length_append] at hlt
        omega
      rw [List.append_nil] at hrest
      have hcs : chunks ≠ [] := by
        refine hrest.nonempty fun hnil => ?_
        have := congrArg List.length hnil
        rw [List.length_drop, List.length_nil] at this
        omega
      rw [h.receive_waits hz hlt hne hshort, ih hlt hz hrest, accepted_cons hcs]
      rfl
    · obtain ⟨rfl, hnil⟩ := List.append_eq_nil_iff.mp hflat
      have hcs : chunks = [] := IsCut.eq_nil ⟨hnil, hcut.tail.ne_nil⟩
      have hall : x ++ z.drop x.length = z := by
        obtain ⟨t, rfl⟩ := hpre
        rw [List.drop_left]
      have hloop := h.loop_ends (r := []) hx hall (fun hc => absurd rfl hc) chunk.length 0
      rw [← hs, Nat.zero_add, if_pos rfl, ← List.append_nil (z.drop x.length), ← hs] at hloop
      rw [hcs]
      exact receiveChunks_last hloop

/-- Chunks from within a block on that its processor rejects. -/
theorem Opens.receive_rejects (h : Opens host b owner p z last) (hr : r ≠ [] → last = false)
    (hc : finishOwner host b.blocks.length (partOf b owner p z).2 (partOf b owner p z).1 = .ok none)
    (hnarrow : owner.narrow → z.length ≤ 2 ^ 31) : ∀ {chunks : List (List UInt8)} {x : List UInt8},
    x.length < z.length → x <+: z → IsCut (z.drop x.length ++ r) chunks →
      ∃ rs d, receiveChunks host (midBlock b owner p x) chunks = .ok (rs, d) ∧ Rejected rs := by
  intro chunks
  induction chunks with
  | nil =>
    intro x hx _ hcut
    have hnil := congrArg List.length hcut.flatten
    rw [List.flatten_nil, List.length_nil, List.length_append, List.length_drop] at hnil
    omega
  | cons chunk chunks ih =>
    intro x hx hpre hcut
    rcases hcut.first hpre with ⟨hz, hlt, hne, hrest⟩ | ⟨s, hs, hflat⟩
    · have hshort : owner.narrow → chunk.length < 2 ^ 31 := fun ho => by
        have := hnarrow ho
        rw [List.length_append] at hlt
        omega
      obtain ⟨rs, d, hrs, hrej⟩ := ih hlt hz hrest
      rw [h.receive_waits hz hlt hne hshort, hrs]
      exact ⟨_, _, rfl, List.mem_cons_of_mem _ hrej⟩
    · have hall : x ++ z.drop x.length = z := by
        obtain ⟨t, rfl⟩ := hpre
        rw [List.drop_left]
      have hs' : s ≠ [] → last = false := fun hsne => hr (by
        rw [← hflat]
        simp [hsne])
      obtain ⟨d, hloop⟩ := h.loop_rejects (r := s) hx hall hs' hc chunk.length 0
      rw [← hs] at hloop
      rw [receiveChunks, consume, hloop]
      exact ⟨_, _, rfl, List.mem_cons_self⟩

end

/-! ## The blocks of a bundle -/

/-- A block as the bytes of a bundle have it; a payload's data stands elsewhere. -/
structure Piece where
  owner : Processor
  offset : ℕ
  data : List UInt8
  deriving DecidableEq, Repr

def Piece.of (owner : Processor) (p : Preamble) (z : List UInt8) : Piece :=
  ⟨owner, p.offset, if owner = .payload then [] else z.drop p.offset⟩

/-- No block of which the length is compared as a number of 32 bits is longer than that. -/
def ShortPieces (ps : List Piece) : Prop :=
  ∀ q ∈ ps, q.owner.narrow → q.offset + q.data.length ≤ 2 ^ 31

/-- No previous hop depends on what stands behind its block: each one is accepted in any case, and the
text of the last one ends with its data. -/
def SettledHops (parse : List UInt8 → Option Uri) : List Piece → Prop
  | [] => True
  | q :: ps => (q.owner = .previousHop → HopAccepts parse q.data ∧
      ((∀ q' ∈ ps, q'.owner ≠ .previousHop) → HopWithin q.data)) ∧ SettledHops parse ps

/-- The previous hop after blocks of which the first one is the n-th, none if one is in error. -/
def hopAfter (parse : List UInt8 → Option Uri) (behind : ℕ → List UInt8) :
    ℕ → Eid → List Piece → Option Eid
  | _, e, [] => some e
  | n, e, q :: ps =>
    if q.owner = .previousHop then
      (hopEid parse q.data (behind n)).bind fun e => hopAfter parse behind (n + 1) e ps
    else hopAfter parse behind (n + 1) e ps

section
variable {parse : List UInt8 → Option Uri} {q : Piece} {ps : List Piece}

theorem hopAfter_hop (ho : q.owner = .previousHop) (behind : ℕ → List UInt8) (n : ℕ) (e : Eid) :
    hopAfter parse behind n e (q :: ps) =
      (hopEid parse q.data (behind n)).bind fun e => hopAfter parse behind (n + 1) e ps := if_pos ho

theorem hopAfter_other (ho : q.owner ≠ .previousHop) (behind : ℕ → List UInt8) (n : ℕ) (e : Eid) :
    hopAfter parse behind n e (q :: ps) = hopAfter parse behind (n + 1) e ps := if_neg ho

/-- Without a previous hop block the previous hop stays. -/
theorem hopAfter_none (h : ∀ q ∈ ps, q.owner ≠ .previousHop) (behind : ℕ → List UInt8) : ∀ (n : ℕ) (e : Eid),
    hopAfter parse behind n e ps = some e := by
  induction ps with
  | nil => intro n e; rfl
  | cons q ps ih =>
    intro n e
    rw [hopAfter_other (h q List.mem_cons_self)]
    exact ih (fun q' hq => h q' (List.mem_cons_of_mem _ hq)) (n + 1) e

/-- With one, the previous hop before is forgotten. -/
theorem hopAfter_forgets (h : ¬ ∀ q ∈ ps, q.owner ≠ .previousHop) (behind : ℕ → List UInt8) :
    ∀ (n : ℕ) (e e' : Eid), hopAfter parse behind n e ps = hopAfter parse behind n e' ps := by
  induction ps with
  | nil => exact absurd (fun q hq => by cases hq) h
  | cons q ps ih =>
    intro n e e'
    by_cases ho : q.owner = .previousHop
    · rw [hopAfter_hop ho, hopAfter_hop ho]
    · rw [hopAfter_other ho, hopAfter_other ho]
      refine ih (fun hall => h fun q' hq => ?_) (n + 1) e e'
      rcases List.mem_cons.mp hq with rfl | hq
      · exact ho
      · exact hall q' hq

theorem settledHops_none (h : ∀ q ∈ ps, q.owner ≠ .previousHop) : SettledHops parse ps := by
  induction ps with
  | nil => trivial
  | cons q ps ih =>
    exact ⟨fun ho => absurd ho (h q List.mem_cons_self), ih fun q' hq => h q' (List.mem_cons_of_mem _ hq)⟩

/-- The previous hop is the same with any bytes behind the blocks exactly if it is settled. -/
theorem hopAfter_settled_iff : ∀ {n : ℕ} {e e' : Eid} {behind : ℕ → List UInt8},
    hopAfter parse behind n e ps = some e' →
      ((∀ behind, hopAfter parse behind n e ps = some e') ↔ SettledHops parse ps) := by
  induction ps with
  | nil => exact fun h => ⟨fun _ => trivial, fun _ _ => h⟩
  | cons q ps ih =>
    intro n e e' behind h
    by_cases ho : q.owner = .previousHop
    · rw [hopAfter_hop ho] at h
      obtain ⟨e₁, he₁, hrest⟩ := Option.bind_eq_some_iff.mp h
      by_cases hlater : ∀ q ∈ ps, q.owner ≠ .previousHop
      · have hsome : ∀ behind, hopAfter parse behind n e (q :: ps) = hopEid parse q.data (behind n) := by
          intro behind
          rw [hopAfter_hop ho]
          simp only [hopAfter_none hlater]
          exact Option.bind_fun_some _
        rw [hopAfter_none hlater] at hrest
        cases hrest
        simp only [hsome]
        constructor
        · refine fun hall => ⟨fun _ => ⟨?_, fun _ => ?_⟩, settledHops_none hlater⟩
          · by_contra hno
            obtain ⟨β, hβ⟩ := hopEid_rejects hno
            rw [hall fun _ => β] at hβ
            cases hβ
          · by_contra hno
            obtain ⟨β, hβ⟩ := @hopEid_differs parse _ hno e'
            exact hβ (hall fun _ => β)
        · intro hset β
          rw [← he₁]
          exact hopEid_of_within ((hset.1 ho).2 hlater) _ _
      · have hforget : ∀ (behind : ℕ → List UInt8) (n : ℕ) (e' : Eid),
            hopAfter parse behind n e' ps = hopAfter parse behind n e ps := fun behind n e' =>
          hopAfter_forgets hlater behind n e' e
        rw [hforget] at hrest
        have hiff := ih hrest
        constructor
        · intro hall
          have hsplit : ∀ behind : ℕ → List UInt8, (hopEid parse q.data (behind n)).isSome ∧
              hopAfter parse behind (n + 1) e ps = some e' := by
            intro behind
            have hb := hall behind
            rw [hopAfter_hop ho] at hb
            obtain ⟨e₂, he₂, hb⟩ := Option.bind_eq_some_iff.mp hb
            rw [hforget] at hb
            exact ⟨by rw [he₂]; rfl, hb⟩
          refine ⟨fun _ => ⟨?_, fun hno => absurd hno hlater⟩, hiff.mp fun behind => (hsplit behind).2⟩
          by_contra hno
          obtain ⟨β, hβ⟩ := hopEid_rejects hno
          have := (hsplit fun _ => β).1
          rw [hβ] at this
          cases this
        · intro hset behind
          have hone : (hopEid parse q.data (behind n)).isSome :=
            hopEid_isSome_of_accepts (hset.1 ho).1 (by rw [he₁]; rfl) _
          obtain ⟨e₂, he₂⟩ := Option.isSome_iff_exists.mp hone
          rw [hopAfter_hop ho, he₂, Option.bind_some, hforget]
          exact hiff.mpr hset.2 behind
    · simp only [hopAfter_other ho] at h ⊢
      rw [ih h]
      exact ⟨fun hset => ⟨fun hc => absurd hc ho, hset⟩, fun hset => hset.2⟩

end

/-- The blocks of the bytes of a bundle, and what is received of them. -/
inductive Story (host : Host) : RecvBundle → List UInt8 → List Piece → RecvBundle → Prop
  | last {b f : RecvBundle} {owner : Processor} {p : Preamble} {z : List UInt8}
      (h : Tile host b owner p z true f) : Story host b z [Piece.of owner p z] f
  | next {b b' f : RecvBundle} {owner : Processor} {p : Preamble} {z r : List UInt8} {ps : List Piece}
      (h : Tile host b owner p z false b') (hr : r ≠ []) (hrest : Story host b' r ps f) :
      Story host b (z ++ r) (Piece.of owner p z :: ps) f

section
variable {host : Host} {b b' f : RecvBundle} {owner : Processor} {p : Preamble}
  {z data : List UInt8} {last : Bool} {ps : List Piece} {chunks : List (List UInt8)}

/-- The same surroundings with other bytes behind the blocks. -/
def Host.withBehind (host : Host) (behind : ℕ → List UInt8) : Host := { host with behind := behind }

theorem Opens.transfer (h : Opens host b owner p z last) (behind : ℕ → List UInt8) (e : Eid) :
    Opens (host.withBehind behind) (b.framed b.blocks e) owner p z last :=
  ⟨⟨⟨h.parsed, h.near⟩, h.length_eq, h.fits, h.payload⟩, h.new, h.room⟩

theorem ShortPieces.head (h : ShortPieces (Piece.of owner p z :: ps)) (hb : BlockImage host b owner p z)
    (ho : owner.narrow) : z.length ≤ 2 ^ 31 := by
  have hle := h _ List.mem_cons_self ho
  have hne : owner ≠ .payload := by rcases ho with rfl | rfl <;> decide
  have hbound := (preamble_bound hb.parsed).2.1
  simp only [Piece.of, if_neg hne, List.length_drop] at hle
  omega

theorem ShortPieces.tail {q : Piece} (h : ShortPieces (q :: ps)) : ShortPieces ps :=
  fun q' hq => h q' (List.mem_cons_of_mem _ hq)

/-- The data of a block that keeps it. -/
theorem BlockImage.data_upTo (h : BlockImage host b owner p z) (ho : owner ≠ .payload) :
    (RecvBlock.upTo owner p z).data = z.drop p.offset ∧
      (RecvBlock.upTo owner p z).contents.drop (RecvBlock.upTo owner p z).dataOffset = z.drop p.offset := by
  have hlen := h.length_eq
  rw [if_neg ho] at hlen
  rw [RecvBlock.upTo_of_le owner (by omega)]
  refine ⟨List.take_of_length_le ?_, rfl⟩
  rw [List.length_drop]
  dsimp only
  omega

/-- The end of a previous hop block. -/
theorem BlockImage.finish_hop (h : BlockImage host b .previousHop p z) (index : ℕ) :
    finishOwner host index (partOf b .previousHop p z).2 (partOf b .previousHop p z).1 =
      .ok ((hopEid host.parse (z.drop p.offset) (host.behind index)).map fun e => b.framed b.blocks e) := by
  have hne : Processor.previousHop ≠ .payload := by decide
  obtain ⟨hdata, hdrop⟩ := h.data_upTo hne
  rw [partOf_other b p z hne]
  unfold finishOwner
  dsimp only
  rw [RecvBlock.owner_upTo]
  dsimp only
  rw [finishPreviousHop_eq host index b (hdata.trans hdrop.symm), hdata]
  rfl

theorem Tile.blocks_length (h : Tile host b owner p z last b') : b'.blocks.length = b.blocks.length + 1 := by
  obtain ⟨c, -, rfl⟩ := h.finish
  simp [RecvBundle.framed]

/-- A block that is no previous hop, with another previous hop before. -/
theorem Tile.transfer (h : Tile host b owner p z last b') (ho : owner ≠ .previousHop)
    (behind : ℕ → List UInt8) (e : Eid) : b'.prevhop = b.prevhop ∧
      Tile (host.withBehind behind) (b.framed b.blocks e) owner p z last (b'.framed b'.blocks e) := by
  obtain ⟨c, hc, hb'⟩ := h.finish
  have hblock : (partOf b owner p z).1.owner ≠ .previousHop := by rwa [owner_partOf]
  have hframe := finishOwner_frame hc hblock
  rw [partOf_prevhop] at hframe
  refine ⟨by rw [hb']; exact hframe, h.toOpens.transfer behind e, ?_, ?_⟩
  · refine ⟨c.framed b.blocks e, ?_, ?_⟩
    · rw [partOf_framed]
      dsimp only
      rw [finishOwner_framed host _ _ _ _ b.blocks.length _ hblock, hc]
      rfl
    · rw [partOf_framed, hb']
      rfl
  · rw [partOf_framed]
    exact h.lastBlock

/-- A previous hop block, with other bytes behind it. -/
theorem Tile.transfer_hop (h : Tile host b .previousHop p z last b') {behind : ℕ → List UInt8} {e e' : Eid}
    (he : hopEid host.parse (z.drop p.offset) (behind b.blocks.length) = some e') :
    hopEid host.parse (z.drop p.offset) (host.behind b.blocks.length) = some b'.prevhop ∧
      Tile (host.withBehind behind) (b.framed b.blocks e) .previousHop p z last
        (b'.framed b'.blocks e') := by
  obtain ⟨c, hc, hb'⟩ := h.finish
  rw [h.finish_hop, Except.ok.injEq] at hc
  obtain ⟨e₁, he₁, rfl⟩ := Option.map_eq_some_iff.mp hc
  have hopens := h.toOpens.transfer behind e
  refine ⟨by rw [he₁, hb']; rfl, hopens, ?_, ?_⟩
  · refine ⟨b.framed b.blocks e', ?_, ?_⟩
    · rw [hopens.finish_hop]
      change Except.ok (Option.map _ (hopEid host.parse (z.drop p.offset) (behind b.blocks.length))) = _
      rw [he]
      rfl
    · rw [partOf_framed, hb']
      rfl
  · rw [partOf_framed]
    exact h.lastBlock

theorem piece_hop (p : Preamble) (z : List UInt8) :
    (Piece.of .previousHop p z).data = z.drop p.offset := rfl

/-- The previous hop of the bundle is the one after its blocks. -/
theorem Story.hopAfter_self (h : Story host b data ps f) :
    hopAfter host.parse host.behind b.blocks.length b.prevhop ps = some f.prevhop := by
  have hstep : ∀ {b b' : RecvBundle} {owner : Processor} {p : Preamble} {z : List UInt8} {last : Bool}
      (ps : List Piece), Tile host b owner p z last b' →
        hopAfter host.parse host.behind b.blocks.length b.prevhop (Piece.of owner p z :: ps) =
          hopAfter host.parse host.behind b'.blocks.length b'.prevhop ps := by
    intro b b' owner p z last ps h
    rw [h.blocks_length]
    by_cases ho : owner = .previousHop
    · subst ho
      rw [hopAfter_hop rfl, piece_hop]
      obtain ⟨c, hc, hb'⟩ := h.finish
      rw [h.finish_hop, Except.ok.injEq] at hc
      obtain ⟨e, he, rfl⟩ := Option.map_eq_some_iff.mp hc
      rw [he, hb']
      rfl
    · rw [hopAfter_other ho, (h.transfer ho host.behind b.prevhop).1]
  induction h with
  | last h =>
    rw [hstep [] h]
    rfl
  | next h hr hrest ih => rw [hstep _ h, ih]

/-- The same blocks with other bytes behind them, if no previous hop is in error. -/
theorem Story.transfer (h : Story host b data ps f) (behind : ℕ → List UInt8) : ∀ {e e' : Eid},
    hopAfter host.parse behind b.blocks.length e ps = some e' →
      Story (host.withBehind behind) (b.framed b.blocks e) data ps (f.framed f.blocks e') := by
  induction h with
  | @last b f owner p z h =>
    intro e e' he
    by_cases ho : owner = .previousHop
    · subst ho
      rw [hopAfter_hop rfl, piece_hop] at he
      obtain ⟨e₁, he₁, he⟩ := Option.bind_eq_some_iff.mp he
      cases he
      exact .last (h.transfer_hop he₁).2
    · rw [hopAfter_other ho] at he
      cases he
      exact .last (h.transfer ho behind e).2
  | @next b b' f owner p z r ps h hr hrest ih =>
    intro e e' he
    rw [h.blocks_length] at ih
    by_cases ho : owner = .previousHop
    · subst ho
      rw [hopAfter_hop rfl, piece_hop] at he
      obtain ⟨e₁, he₁, he⟩ := Option.bind_eq_some_iff.mp he
      exact .next (h.transfer_hop he₁).2 hr (ih he)
    · rw [hopAfter_other ho] at he
      exact .next (h.transfer ho behind e).2 hr (ih he)

/-- Any chunks of short blocks give the bundle. -/
theorem Story.receives (h : Story host b data ps f) : ShortPieces ps → ∀ {chunks : List (List UInt8)},
    IsCut data chunks → receiveChunks host b chunks = .ok (accepted chunks, f) := by
  induction h with
  | @last b f owner p z h =>
    intro hshort chunks hcut
    have := h.receive_last (hshort.head h.toBlockImage) (x := []) h.length_pos List.nil_prefix hcut
    rwa [midBlock_nil] at this
  | @next b b' f owner p z r ps h hr hrest ih =>
    intro hshort chunks hcut
    obtain ⟨chunks', hcut', hall⟩ := h.receive_next hr (hshort.head h.toBlockImage) (x := [])
      h.length_pos List.nil_prefix hcut
    obtain ⟨rs, hrs, hacc, -⟩ := hall _ _ (ih hshort.tail hcut')
    rw [midBlock_nil, hacc rfl] at hrs
    exact hrs

/-- A previous hop that is in error ends the reception. -/
theorem Story.rejects (h : Story host b data ps f) (behind : ℕ → List UInt8) : ShortPieces ps →
    ∀ {e : Eid}, hopAfter host.parse behind b.blocks.length e ps = none →
      ∀ {chunks : List (List UInt8)}, IsCut data chunks → ∃ rs d,
        receiveChunks (host.withBehind behind) (b.framed b.blocks e) chunks = .ok (rs, d) ∧
          Rejected rs := by
  induction h with
  | @last b f owner p z h =>
    intro hshort e he chunks hcut
    by_cases ho : owner = .previousHop
    · subst ho
      have hopens := h.toOpens.transfer behind e
      rw [hopAfter_hop rfl, piece_hop, Option.bind_eq_none_iff] at he
      have hnone : hopEid host.parse (z.drop p.offset) (behind b.blocks.length) = none := by
        cases heid : hopEid host.parse (z.drop p.offset) (behind b.blocks.length) with
        | none => rfl
        | some e₁ => simpa [hopAfter] using he e₁ heid
      have hfinish := hopens.finish_hop b.blocks.length
      change _ = Except.ok (Option.map _ (hopEid host.parse (z.drop p.offset)
        (behind b.blocks.length))) at hfinish
      rw [hnone] at hfinish
      have := hopens.receive_rejects (r := []) (x := []) (fun hc => absurd rfl hc) hfinish
        (hshort.head h.toBlockImage) h.length_pos List.nil_prefix (by simpa using hcut)
      rwa [midBlock_nil] at this
    · rw [hopAfter_other ho] at he
      cases he
  | @next b b' f owner p z r ps h hr hrest ih =>
    intro hshort e he chunks hcut
    rw [h.blocks_length] at ih
    have hnext : ∀ {e e' : Eid}, Tile (host.withBehind behind) (b.framed b.blocks e) owner p z false
        (b'.framed b'.blocks e') → hopAfter host.parse behind (b.blocks.length + 1) e' ps = none →
          IsCut (z ++ r) chunks → ∃ rs d,
            receiveChunks (host.withBehind behind) (b.framed b.blocks e) chunks = .ok (rs, d) ∧
              Rejected rs := by
      intro e e' ht he' hcut
      obtain ⟨chunks', hcut', hall⟩ := ht.receive_next hr (hshort.head h.toBlockImage) (x := [])
        h.length_pos List.nil_prefix hcut
      obtain ⟨rs, d, hrs, hrej⟩ := ih hshort.tail he' hcut'
      obtain ⟨rs', hrs', -, hrej'⟩ := hall rs d hrs
      rw [midBlock_nil] at hrs'
      exact ⟨rs', d, hrs', hrej' hrej⟩
    by_cases ho : owner = .previousHop
    · subst ho
      rw [hopAfter_hop rfl, piece_hop, Option.bind_eq_none_iff] at he
      cases heid : hopEid host.parse (z.drop p.offset) (behind b.blocks.length) with
      | some e₁ => exact hnext (h.transfer_hop heid).2 (he e₁ heid) hcut
      | none =>
        have hopens := h.toOpens.transfer behind e
        have hfinish := hopens.finish_hop b.blocks.length
        change _ = Except.ok (Option.map _ (hopEid host.parse (z.drop p.offset)
          (behind b.blocks.length))) at hfinish
        rw [heid] at hfinish
        have := hopens.receive_rejects (r := r) (x := []) (fun _ => rfl) hfinish
          (hshort.head h.toBlockImage) h.length_pos List.nil_prefix hcut
        rwa [midBlock_nil] at this
    · rw [hopAfter_other ho] at he
      exact hnext (h.transfer ho behind e).2 he hcut

theorem not_rejected_accepted (chunks : List (List UInt8)) : ¬ Rejected (accepted chunks) := by
  unfold Rejected
  induction chunks with
  | nil => simp [accepted]
  | cons chunk chunks ih =>
    by_cases hnil : chunks = []
    · simp [hnil, accepted]
    · simp [accepted_cons hnil, ih]

/-- If all chunks give the bundle, then no chunk can be too long for a block. -/
theorem Story.short (h : Story host b data ps f)
    (hall : ∀ chunks, IsCut data chunks → receiveChunks host b chunks = .ok (accepted chunks, f)) :
    ShortPieces ps := by
  -- all of a long block but its last byte is a chunk that aborts
  have hhead : ∀ {b b' : RecvBundle} {owner : Processor} {p : Preamble} {z : List UInt8} {last : Bool}
      (r : List UInt8) (g : RecvBundle), Tile host b owner p z last b' →
        (∀ chunks, IsCut (z ++ r) chunks → receiveChunks host b chunks = .ok (accepted chunks, g)) →
          owner.narrow → p.offset + (Piece.of owner p z).data.length ≤ 2 ^ 31 := by
    intro b b' owner p z last r g h hall ho
    have hne : owner ≠ .payload := by rcases ho with rfl | rfl <;> decide
    have hpos := h.length_pos
    have hbound := (preamble_bound h.parsed).2.1
    have hpiece : (Piece.of owner p z).data = z.drop p.offset := if_neg hne
    by_contra hlong
    rw [hpiece, List.length_drop] at hlong
    have hlen : (z.take (z.length - 1)).length = z.length - 1 := by
      rw [List.length_take]
      omega
    obtain ⟨e, he⟩ := consumeOwner_narrow b.blocks.length h.toBlockImage (x := [])
      (y := z.take (z.length - 1)) (List.take_prefix _ _) (by rw [List.nil_append]; omega) ho (by omega)
    have hcurrent := h.current_eq (x := []) hpos (y := z.take (z.length - 1)) (List.take_prefix _ _)
      (List.ne_nil_of_length_pos (by omega)) []
    rw [midBlock_nil, List.append_nil] at hcurrent
    have hround : consumeRound host b (z.take (z.length - 1)) = .error e := by
      rw [h.partOf_nil] at he hcurrent
      rw [consumeRound, hcurrent]
      simp only [bind, Except.bind, he]
    have hchunks := hall [z.take (z.length - 1), z.drop (z.length - 1) ++ r] ⟨by simp [← List.append_assoc], by
      simp only [List.mem_cons, List.not_mem_nil, or_false, not_or]
      constructor
      · intro hnil
        have := congrArg List.length hnil
        rw [List.length_nil] at this
        omega
      · intro hnil
        have := congrArg List.length hnil.symm
        rw [List.length_append, List.length_drop, List.length_nil] at this
        omega⟩
    rw [receiveChunks, consume, consumeLoop, if_neg (List.ne_nil_of_length_pos (by omega)), hround] at hchunks
    cases hchunks
  induction h with
  | last h =>
    intro q hq ho
    rw [List.mem_singleton] at hq
    subst hq
    exact hhead [] _ h (by simpa using hall) ho
  | @next b b' f owner p z r ps h hr hrest ih =>
    have hwhole : consume host b z = .ok (some z.length, false, b') := by
      have hloop := h.loop_ends (x := []) (y := z) (r := []) h.length_pos rfl (fun _ => rfl) z.length 0
      obtain ⟨fuel, hfuel⟩ : ∃ fuel, z.length = fuel + 1 := ⟨z.length - 1, by have := h.length_pos; omega⟩
      rw [midBlock_nil, List.append_nil, if_neg Bool.false_ne_true, Nat.zero_add] at hloop
      rw [consume, hloop, hfuel, consumeLoop, if_pos rfl]
    have htail : ShortPieces ps := by
      refine ih fun chunks hcut => ?_
      refine (receiveChunks_cons hwhole (hcut.nonempty hr)).mp (hall _ ⟨?_, ?_⟩)
      · rw [List.flatten_cons, hcut.flatten]
      · intro hin
        rcases List.mem_cons.mp hin with hnil | hin
        · exact absurd hnil.symm (List.ne_nil_of_length_pos h.length_pos)
        · exact hcut.ne_nil hin
    intro q hq ho
    rcases List.mem_cons.mp hq with rfl | hq
    · exact hhead r _ h hall ho
    · exact htail q hq ho

/-- All chunks, with all bytes behind the blocks, give the bundle exactly if the blocks are short and
their previous hops are settled. -/
theorem Story.independent_iff (h : Story host b data ps f) :
    (∀ behind chunks, IsCut data chunks →
        receiveChunks (host.withBehind behind) b chunks = .ok (accepted chunks, f)) ↔
      ShortPieces ps ∧ SettledHops host.parse ps := by
  have hself := h.hopAfter_self
  rw [← hopAfter_settled_iff hself]
  constructor
  · intro hall
    have hshort : ShortPieces ps := h.short fun chunks hcut => hall host.behind chunks hcut
    refine ⟨hshort, fun behind => ?_⟩
    -- a cut into single bytes
    have hcut : IsCut data (data.map fun v => [v]) :=
      ⟨by rw [← List.flatMap_def, List.flatMap_singleton'], by simp⟩
    have hres := hall behind _ hcut
    cases he : hopAfter host.parse behind b.blocks.length b.prevhop ps with
    | none =>
      obtain ⟨rs, d, hrs, hrej⟩ := h.rejects behind hshort he hcut
      rw [b.framed_self, hres] at hrs
      cases hrs
      exact absurd hrej (not_rejected_accepted _)
    | some e =>
      have hrs := (h.transfer behind he).receives hshort hcut
      rw [b.framed_self, hres, Except.ok.injEq, Prod.mk.injEq] at hrs
      exact congrArg some (congrArg RecvBundle.prevhop hrs.2).symm
  · rintro ⟨hshort, hhops⟩ behind chunks hcut
    have hrs := (h.transfer behind (hhops behind)).receives hshort hcut
    rwa [b.framed_self, f.framed_self] at hrs

end

/-! ## A bundle that was accepted as a whole -/

/-- The block that a round starts with, as the bytes have it. -/
def pieceOf (v : RecvBundle × List UInt8) : Piece :=
  let block := (v.1.current (v.2.headD 0)).2
  match block.header v.1.dict v.2 with
  | some (off, len) =>
    ⟨block.owner, off, if block.owner = .payload then [] else dataAt block v.2 off len⟩
  | none => ⟨block.owner, 0, []⟩

section
variable {host : Host} {b c f : RecvBundle} {owner : Processor} {data : List UInt8}

theorem consumeThen_block {expected : ℕ → ℤ}
    {finish : RecvBundle → RecvBlock → Except Fault (Option RecvBundle)} {cc : ℕ}
    {block block' : RecvBlock}
    (h : consumeThen host expected finish b block data = .ok (some cc, block', c)) :
    consumeBlock host.memory b.dict block data = .ok (some cc, block') := by
  rw [consumeThen] at h
  obtain ⟨⟨n, blk⟩, hc, h⟩ := of_bind_ok h
  cases n with
  | none => cases h
  | some n =>
    dsimp only at h
    split_ifs at h
    · obtain ⟨u, -, h⟩ := of_bind_ok h
      cases h
      exact hc
    · obtain ⟨r, -, h⟩ := of_bind_ok h
      cases r with
      | none => cases h
      | some b' =>
        cases h
        exact hc

theorem consumePrimaryBlock_block {cc : ℕ} {block block' : RecvBlock}
    (h : consumePrimaryBlock host b block data = .ok (some cc, block', c)) :
    consumeBlock host.memory b.dict block data = .ok (some cc, block') := by
  rw [consumePrimaryBlock] at h
  obtain ⟨v, hv, h⟩ := of_bind_ok h
  rw [consumePrimary] at hv
  obtain ⟨u, -, hv⟩ := of_bind_ok hv
  obtain ⟨⟨n, blk⟩, hc, hv⟩ := of_bind_ok hv
  cases n with
  | none =>
    cases hv
    cases h
  | some n =>
    dsimp only at hv
    split_ifs at hv
    · obtain ⟨u, -, hv⟩ := of_bind_ok hv
      cases hv
      cases h
      exact hc
    · obtain ⟨u, -, hv⟩ := of_bind_ok hv
      obtain ⟨r, -, hv⟩ := of_bind_ok hv
      cases r with
      | none =>
        cases hv
        cases h
      | some r =>
        cases hv
        cases h
        exact hc

/-- The block is the one that `BP6_BlockProcessor::consume` has filled. -/
theorem consumeOwner_block {index cc : ℕ} {block block' : RecvBlock} (ho : block.owner ≠ .payload)
    (h : consumeOwner host index b block data = .ok (some cc, block', c)) :
    consumeBlock host.memory b.dict block data = .ok (some cc, block') := by
  unfold consumeOwner at h
  cases hob : block.owner with
  | payload => exact absurd hob ho
  | primary =>
    rw [hob] at h
    exact consumePrimaryBlock_block h
  | previousHop =>
    rw [hob] at h
    exact consumeThen_block h
  | metadata =>
    rw [hob] at h
    exact consumeThen_block h
  | custodyTransferEnhancement =>
    rw [hob] at h
    exact consumeThen_block h
  | extendedClassOfService =>
    rw [hob] at h
    exact consumeThen_block h
  | imcState =>
    rw [hob] at h
    exact consumeThen_block h
  | unknown =>
    rw [hob] at h
    simp only [consumeUnknown] at h
    obtain ⟨⟨n, blk⟩, hc, h⟩ := of_bind_ok h
    cases h
    exact hc

theorem header_new (owner : Processor) (dict data : List UInt8) :
    ({ owner := owner } : RecvBlock).header dict data =
      (preamble dict (data.take 64)).map fun p => (p.offset, p.blockLen) := rfl

theorem head_of_take {dict : List UInt8} {p : Preamble} (h : preamble dict (data.take 64) = some p)
    {z : List UInt8} {k : ℕ} (hz : z = data.take k) (hk : p.offset ≤ k) : Head dict p z := by
  have hbound := (preamble_bound h).2.1
  rw [List.length_take] at hbound
  have hwhole := preamble_append (data.drop 64) h
  rw [List.take_append_drop] at hwhole
  exact ⟨hz ▸ preamble_take hwhole hk, by omega⟩

/-- The bytes of a block that a processor completes at once. -/
theorem image_of_complete {index cc : ℕ} {block : RecvBlock}
    (h : Receiving host b { owner := owner } data) (hd : data ≠ [])
    (hc : consumeOwner host index b { owner := owner } data = .ok (some cc, block, c))
    (hcomplete : block.complete = true) : ∃ p z r, data = z ++ r ∧ BlockImage host b owner p z ∧
      preamble b.dict (data.take 64) = some p ∧
      (owner ≠ .payload → z = data.take (p.offset + p.blockLen)) ∧
      (owner ≠ .payload → r ≠ [] → p.blockLen = 0 → p.offset < 64) := by
  by_cases ho : owner = .payload
  · subst ho
    have hgrow : Grows host ({ owner := .payload } : RecvBlock) := by
      intro hfull
      cases hfull
    have hpre := consumePreamble_eq h rfl hgrow
    have hopened : (({ owner := .payload } : RecvBlock).opened data).contents = data.take 64 := rfl
    rw [hopened] at hpre
    have hc' : consumePayload host b { owner := .payload } data = .ok (some cc, block, c) := hc
    rw [consumePayload, payloadStart, if_pos rfl, hpre] at hc'
    cases hp : preamble b.dict (data.take 64) with
    | none =>
      rw [hp] at hc'
      simp only [bind, Except.bind] at hc'
      split_ifs at hc' with hw
      · by_cases hempty : b.payload.length = 0
        · have hopen : payloadData b (({ owner := .payload } : RecvBlock).opened data) [] =
              .ok (0, ({ owner := .payload } : RecvBlock).opened data, b) := by
            unfold payloadData
            rw [if_pos (show (({ owner := .payload } : RecvBlock).opened data).dataOffset = 0 from rfl)]
            rfl
          simp only [require_of hempty, pure, Except.pure, List.drop_length, hopen] at hc'
          cases hc'
          cases hcomplete
        · rw [require, if_neg hempty] at hc'
          cases hc'
      · cases hc'
    | some p =>
      rw [hp] at hc'
      simp only [bind, Except.bind] at hc'
      have hempty : b.payload = [] := by
        by_contra hne
        rw [require, if_neg (by simpa using hne)] at hc'
        cases hc'
      have hbound := (preamble_bound hp).2.1
      rw [List.length_take] at hbound
      by_cases hlen : p.offset + payloadLen b.nodata p ≤ data.length
      · refine ⟨p, data.take (p.offset + payloadLen b.nodata p), data.drop (p.offset + payloadLen b.nodata p),
          (List.take_append_drop _ _).symm, ⟨head_of_take hp rfl (by omega), ?_, fun hno => absurd rfl hno,
            fun _ => hempty⟩, rfl, fun hno => absurd rfl hno, fun hno => absurd rfl hno⟩
        rw [if_pos rfl, List.length_take]
        omega
      · -- with more bytes it would be a payload of which this is a part
        obtain ⟨more, hmore⟩ : ∃ more : List UInt8,
            more = List.replicate (p.offset + payloadLen b.nodata p - data.length) 0 := ⟨_, rfl⟩
        have hmoreLen : data.length + more.length = p.offset + payloadLen b.nodata p := by
          rw [hmore, List.length_replicate]
          omega
        have hwhole := preamble_append (data.drop 64) hp
        rw [List.take_append_drop] at hwhole
        have himage : BlockImage host b .payload p (data ++ more) :=
          ⟨⟨preamble_append more hwhole, by omega⟩, by rw [if_pos rfl, List.length_append, hmoreLen],
            fun hno => absurd rfl hno, fun _ => hempty⟩
        have hlt : ([] ++ data).length < (data ++ more).length := by
          rw [List.nil_append, List.length_append]
          omega
        have hwaits := consumeOwner_waits index himage (x := []) (y := data) (List.prefix_append _ _) hlt
          (by rintro (hn | hn) <;> cases hn)
        have hinc := himage.incomplete hlt
        rw [himage.partOf_nil, hc, Except.ok.injEq, Prod.mk.injEq] at hwaits
        rw [← hwaits.2, hcomplete] at hinc
        cases hinc
  · have hblock := consumeOwner_block ho hc
    have hspec := consumeBlock_spec h hd ho
    rw [hblock] at hspec
    cases hspec with
    | waits _ _ _ hready => exact absurd (hready.incomplete.symm.trans hcomplete) (by decide)
    | completes _ _ hfits hdone =>
      have hfound := hdone.header
      rw [header_new] at hfound
      obtain ⟨p, hp, hpair⟩ := Option.map_eq_some_iff.mp hfound
      rw [Prod.mk.injEq] at hpair
      have hheader := hdone.header
      have hend := hdone.end_le
      have hall : ({ owner := owner } : RecvBlock).contents ++ data = data := rfl
      rw [← hpair.1, ← hpair.2] at hheader hend
      rw [hall] at hend
      have hlen : (data.take (p.offset + p.blockLen)).length = p.offset + p.blockLen := by
        rw [List.length_take]
        omega
      refine ⟨p, data.take (p.offset + p.blockLen), data.drop (p.offset + p.blockLen),
        (List.take_append_drop _ _).symm, ⟨head_of_take hp rfl (by omega), by rw [if_neg ho, hlen],
          fun _ hne => ?_, fun hpay => absurd hpay ho⟩, hp, fun _ => rfl, fun _ hr h0 => ?_⟩
      · rw [hlen]
        exact hfits.fits p.offset p.blockLen hheader hne (by rw [hall]; omega)
      · have hpos := List.length_pos_iff.mpr hr
        rw [List.length_drop] at hpos
        rw [h0] at hheader
        exact hfits.room p.offset hheader (by rw [hall]; omega)

/-- Between blocks a new block starts. -/
def Between (b : RecvBundle) : Prop := ∀ block, b.blocks.getLast? = some block → block.complete = true

theorem Between.current (h : Between b) (type : UInt8) : ∃ owner, b.current type = (b.blocks, { owner := owner }) := by
  unfold RecvBundle.current
  cases hlast : b.blocks.getLast? with
  | none => exact ⟨.primary, by rw [List.getLast?_eq_none_iff.mp hlast]⟩
  | some block =>
    dsimp only
    rw [if_pos (h block hlast)]
    exact ⟨_, rfl⟩

/-- A round that completes a block with more behind it, or that ends the bundle. -/
theorem tile_of_round {b' : RecvBundle} {cc : ℕ} {block : RecvBlock} {last : Bool} (hinv : RecvInv host b)
    (hbetween : Between b) (hd : data ≠ [])
    (hround : consumeRound host b data = .ok (some cc, block, b')) (hcomplete : block.complete = true)
    (hlast : block.lastBlock = .ok last) (hmore : last = false → cc < data.length) :
    ∃ owner p z r, data = z ++ r ∧ cc = z.length ∧ Tile host b owner p z last b' ∧
      pieceOf (b, data) = Piece.of owner p z ∧ Between b' := by
  obtain ⟨owner, hcurrent⟩ := hbetween.current (data.headD 0)
  have hready := hinv.current hd
  rw [hcurrent] at hready
  rw [consumeRound, hcurrent] at hround
  simp only [bind, Except.bind] at hround
  cases howner : consumeOwner host b.blocks.length b { owner := owner } data with
  | error e => simp [howner] at hround
  | ok v =>
    obtain ⟨n, blk, c⟩ := v
    rw [howner] at hround
    cases hround
    obtain ⟨p, z, r, hsplit, himage, hp, hz, hroom⟩ := image_of_complete hready hd howner hcomplete
    have hzpos := himage.length_pos
    have hnew : b.current (z.headD 0) = (b.blocks, { owner := owner }) := by
      rw [← hcurrent, hsplit]
      obtain ⟨v, z, rfl⟩ := List.exists_cons_of_ne_nil (List.ne_nil_of_length_pos hzpos)
      rfl
    have hpiece : pieceOf (b, data) = Piece.of owner p z := by
      unfold pieceOf
      simp only [hcurrent, header_new, hp, Option.map_some, Piece.of]
      split_ifs with ho
      · rfl
      · rw [hz ho, dataAt, List.drop_take, Nat.add_sub_cancel_left, List.nil_append]
    have hfinal := consumeOwner_ends (r := r) (y := z) b.blocks.length himage (x := []) hzpos rfl hroom
    rw [himage.partOf_nil, ← hsplit, howner] at hfinal
    cases hfinish : finishOwner host b.blocks.length (partOf b owner p z).2 (partOf b owner p z).1 with
    | error e =>
      rw [hfinish] at hfinal
      cases hfinal
    | ok d =>
      rw [hfinish] at hfinal
      cases d with
      | none => cases hfinal
      | some d =>
        simp only [Except.map, Except.ok.injEq, Prod.mk.injEq, Option.some.injEq] at hfinal
        obtain ⟨rfl, rfl, rfl⟩ := hfinal
        refine ⟨owner, p, z, r, hsplit, rfl, ⟨⟨himage, hnew, fun ho hl h0 => hroom ho ?_ h0⟩,
          ⟨c, hfinish, rfl⟩, hlast⟩, hpiece, fun block hblock => ?_⟩
        · have hlen := hmore hl
          rintro rfl
          rw [hsplit, List.append_nil] at hlen
          exact lt_irrefl _ hlen
        · simp only [List.getLast?_append, List.getLast?_singleton, Option.some_or,
            Option.some.injEq] at hblock
          rw [← hblock]
          exact hcomplete

theorem consumeLoop_nil {fuel consumed : ℕ} {v : Option ℕ × Bool × RecvBundle}
    (h : consumeLoop host fuel b [] consumed = .ok v) : v.2.1 = false := by
  cases fuel with
  | zero => simp [consumeLoop] at h
  | succ fuel =>
    rw [consumeLoop, if_pos rfl, Except.ok.injEq] at h
    rw [← h]

/-- The bytes of a bundle that was accepted are its blocks. -/
theorem story_of_consumeLoop (fuel : ℕ) : ∀ {b : RecvBundle} {data : List UInt8} {consumed : ℕ},
    RecvInv host b → Between b →
      consumeLoop host fuel b data consumed = .ok (some (consumed + data.length), true, f) →
        Story host b data ((roundsOf host fuel b data).map pieceOf) f := by
  induction fuel with
  | zero => intro b data consumed _ _ h; simp [consumeLoop] at h
  | succ fuel ih =>
    intro b data consumed hinv hbetween h
    have hd : data ≠ [] := by
      rintro rfl
      cases consumeLoop_nil h
    rw [consumeLoop, if_neg hd] at h
    rw [roundsOf, if_neg hd]
    rcases consumeRound_spec hinv hd with ⟨-, e, he⟩ | ⟨-, cc, block, b', hround, hfacts⟩
    · simp [bind, Except.bind, he] at h
    simp only [bind, Except.bind, hround] at h
    cases cc with
    | none => simp [pure, Except.pure] at h
    | some cc =>
      obtain ⟨hpos, hle, hinv', last, hends⟩ := hfacts cc rfl
      simp only [hends] at h
      -- bytes are left unless the block is the last one
      have hmore : last = false → cc < data.length := by
        intro hl
        by_contra hno
        rw [hl, if_neg Bool.false_ne_true, List.drop_of_length_le (by omega)] at h
        cases consumeLoop_nil h
      have hcomplete : block.complete = true := by
        by_contra hno
        rw [roundEnds, if_neg hno] at hends
        by_cases hrest : data.drop cc = []
        · rw [require_of hrest] at hends
          cases hends
          have := hmore rfl
          have := List.drop_eq_nil_iff.mp hrest
          omega
        · rw [require, if_neg hrest] at hends
          cases hends
      have hlast := hends
      rw [roundEnds, if_pos hcomplete] at hlast
      obtain ⟨owner, p, z, r, hsplit, rfl, htile, hpiece, hbetween'⟩ :=
        tile_of_round hinv hbetween hd hround hcomplete hlast hmore
      have hdrop : data.drop z.length = r := by rw [hsplit, List.drop_left]
      rw [hround]
      dsimp only
      rw [hends, List.map_cons, hpiece]
      cases last with
      | true =>
        simp only [if_true, pure, Except.pure, Except.ok.injEq, Prod.mk.injEq, Option.some.injEq,
          true_and] at h
        have hr : r = [] := by
          have hlen := congrArg List.length hsplit
          rw [List.length_append] at hlen
          exact List.eq_nil_of_length_eq_zero (by omega)
        rw [hsplit, hr, List.append_nil, ← h.2]
        exact .last htile
      | false =>
        have hr : r ≠ [] := by
          rintro rfl
          have := hmore rfl
          rw [hsplit, List.append_nil] at this
          exact lt_irrefl _ this
        rw [if_neg Bool.false_ne_true, hdrop] at h
        dsimp only
        rw [hdrop]
        rw [hsplit] at h ⊢
        rw [List.length_append, ← Nat.add_assoc] at h
        exact .next htile hr (ih hinv' hbetween' h)

end

/-- A bundle that is accepted as a whole is accepted in any chunks, with all of their bytes used, the
last one ending it, and with the same blocks, fields and payload, exactly if no block is too long for
its processor and no previous hop is read beyond its block. -/
theorem receiveChunks_iff (host : Host) (nodata : Bool) (w : List UInt8) (f : RecvBundle)
    (h : consume host { nodata := nodata } w = .ok (some w.length, true, f)) :
    (∀ behind chunks, IsCut w chunks →
        receiveChunks (host.withBehind behind) { nodata := nodata } chunks = .ok (accepted chunks, f)) ↔
      let ps := (roundsOf host (w.length + 1) { nodata := nodata } w).map pieceOf
      ShortPieces ps ∧ SettledHops host.parse ps := by
  have hinv : RecvInv host { nodata := nodata } := ⟨fun _ => rfl, fun block hlast => by simp at hlast⟩
  have hbetween : Between { nodata := nodata } := fun block hlast => by simp at hlast
  rw [consume, ← Nat.zero_add w.length] at h
  have hstory := story_of_consumeLoop _ hinv hbetween h
  rw [Nat.zero_add] at hstory
  exact hstory.independent_iff

/-- A primary block, and a previous hop block with a text. -/
def hopChunk (t : List UInt8) : List UInt8 :=
  [0x06, 0x10, 0x0c, 2, 1, 1, 1, 1, 1, 0, 0, 0, 0, 0x3c, 0, 0x05, 0x00, UInt8.ofNat t.length] ++ t

/-- The last block. -/
def payloadChunk : List UInt8 := [0x01, 0x08, 2, 0x68, 0x69]

theorem exists_result (x : Except Fault (Option ℕ × Bool × RecvBundle)) (r : Option ℕ) (last : Bool)
    (h : x.toOption.map (fun v => (v.1, v.2.1)) = some (r, last)) : ∃ f, x = .ok (r, last, f) := by
  cases x with
  | error e => cases h
  | ok v =>
    obtain ⟨r', last', f⟩ := v
    cases h
    exact ⟨f, rfl⟩

/-- The text `ipn:1.0` with its zero byte. -/
theorem receiveChunks_endedHop : ∃ f,
    consume smallHost { nodata := false } (hopChunk (text "ipn:1.0" ++ [0]) ++ payloadChunk) =
      .ok (some (hopChunk (text "ipn:1.0" ++ [0]) ++ payloadChunk).length, true, f) ∧
    ∀ behind chunks, IsCut (hopChunk (text "ipn:1.0" ++ [0]) ++ payloadChunk) chunks →
      receiveChunks (smallHost.withBehind behind) { nodata := false } chunks =
        .ok (accepted chunks, f) := by
  obtain ⟨f, hf⟩ := exists_result (consume smallHost { nodata := false }
    (hopChunk (text "ipn:1.0" ++ [0]) ++ payloadChunk)) (some 31) true (by decide +kernel)
  refine ⟨f, hf, (receiveChunks_iff smallHost false _ f hf).mpr ?_⟩
  have hpieces : (roundsOf smallHost ((hopChunk (text "ipn:1.0" ++ [0]) ++ payloadChunk).length + 1)
      { nodata := false } (hopChunk (text "ipn:1.0" ++ [0]) ++ payloadChunk)).map pieceOf =
        [⟨.primary, 3, [2, 1, 1, 1, 1, 1, 0, 0, 0, 0, 0x3c, 0]⟩,
          ⟨.previousHop, 3, text "ipn:1.0" ++ [0]⟩, ⟨.payload, 3, []⟩] := by decide +kernel
  rw [hpieces]
  refine ⟨?_, fun ho => (nomatch ho), ⟨fun _ => ⟨.inl (by decide), fun _ => .inl ⟨by decide, ?_⟩⟩,
    fun ho => (nomatch ho), trivial⟩⟩
  · intro q hq _
    simp only [List.mem_cons, List.not_mem_nil, or_false] at hq
    rcases hq with rfl | rfl | rfl <;> decide
  · exact fun _ => by decide

/-- Without the zero byte the bytes of the next block are part of the text, or what stands in memory. -/
theorem receiveChunks_unendedHop : ¬ ∀ (host : Host) (nodata : Bool) (w : List UInt8) (f : RecvBundle),
    consume host { nodata := nodata } w = .ok (some w.length, true, f) →
      ∀ behind chunks, IsCut w chunks →
        receiveChunks (host.withBehind behind) { nodata := nodata } chunks = .ok (accepted chunks, f) := by
  intro hall
  obtain ⟨f, hf⟩ := exists_result (consume (smallHost.withBehind fun _ => payloadChunk ++ [0])
    { nodata := false } (hopChunk (text "ipn:1.0") ++ payloadChunk)) (some 30) true
    (by decide +kernel)
  have hwhole : (consume (smallHost.withBehind fun _ => payloadChunk ++ [0]) { nodata := false }
      (hopChunk (text "ipn:1.0") ++ payloadChunk)).toOption.map (fun v => v.2.2.prevhop) =
        some ⟨text "ipn:1.0" ++ payloadChunk⟩ := by decide +kernel
  have hcut : (receiveChunks (smallHost.withBehind fun _ => [0]) { nodata := false }
      [hopChunk (text "ipn:1.0"), payloadChunk]).toOption.map (fun v => v.2.prevhop) =
        some ⟨text "ipn:1.0"⟩ := by decide +kernel
  have hsame := hall _ false _ f hf (fun _ => [0]) [hopChunk (text "ipn:1.0"), payloadChunk]
    ⟨rfl, by decide⟩
  have hhost : (smallHost.withBehind fun _ => payloadChunk ++ [0]).withBehind (fun _ => [0]) =
      smallHost.withBehind fun _ => [0] := rfl
  rw [hf] at hwhole
  rw [hhost] at hsame
  rw [hsame] at hcut
  have heq : (⟨text "ipn:1.0" ++ payloadChunk⟩ : Eid) = ⟨text "ipn:1.0"⟩ :=
    Option.some.inj (hwhole.symm.trans hcut)
  exact absurd heq (by decide)

end Dtnme.Bundling
