import Dtnme.Library.Word
import Dtnme.Bundling.BlockInfo

/-! # The blocks of an outgoing bundle of version 7

A bundle goes out with the blocks that came in, then those of the application, then those of the
registered processors that have none yet. The later ones come right behind the primary block, and
their numbers are counted on from the highest received one.
-/

namespace Dtnme.Bundling.Bp7
open Library

/-! ## Processors -/

/-- The processors that are registered, and the one for all other blocks. -/
inductive Processor
  | primary
  | payload
  | previousNode
  | bundleAge
  | hopCount
  | imcDestinations
  | imcState
  | unknown
  deriving DecidableEq, Repr

def Processor.blockType : Processor → ℕ
  | .primary => 0
  | .payload => 1
  | .previousNode => 6
  | .bundleAge => 7
  | .hopCount => 10
  | .imcDestinations => 195
  | .imcState => 222
  | .unknown => 257

/-- `init_default_processors`. -/
def registered : List Processor :=
  [.primary, .payload, .previousNode, .hopCount, .imcDestinations, .imcState, .bundleAge]

/-- `find_processor`, of a type of one byte. -/
def findProcessor (type : ℕ) : Processor :=
  (registered.find? fun p => p.blockType = type).getD .unknown

/-- Blocks that are neither the primary block nor the payload. -/
def Processor.IsExtension (p : Processor) : Prop := p ≠ .primary ∧ p ≠ .payload

instance (p : Processor) : Decidable p.IsExtension := by
  unfold Processor.IsExtension
  infer_instance

/-! ## Blocks -/

/-- A block that came in, or that the application gave. -/
structure SourceBlock where
  owner : Processor
  blockNumber : ℕ
  blockFlags : ℕ := 0
  deriving DecidableEq, Repr

/-- A block that goes out. Nothing is taken over from the source when it is made. -/
structure XmitBlock where
  owner : Processor
  source : Option SourceBlock
  blockNumber : ℕ := 0
  blockFlags : ℕ := 0
  crcType : ℕ := 0
  deriving DecidableEq, Repr

/-- What the processors ask of the bundle and of the link. -/
structure Outgoing where
  recvBlocks : List SourceBlock := []
  apiBlocks : List SourceBlock := []
  highestRcvdBlockNumber : ℕ := 1
  fragmentedIncoming : Bool := false
  hasBundleAgeBlock : Bool := false
  hopLimit : ℕ := 0
  destIsImcScheme : Bool := false
  imcBriefing : Bool := false
  prevhopHdr : Bool := false

/-- `set_highest_rcvd_block_number`. -/
def setHighestRcvdBlockNumber (highest blockNum : ℕ) : ℕ :=
  if highest < blockNum then blockNum else highest

/-- Every extension block that is consumed reports its number. -/
def highestRcvd (recv : List SourceBlock) : ℕ :=
  recv.foldl (fun highest r =>
    if r.owner.IsExtension then setHighestRcvdBlockNumber highest r.blockNumber else highest) 1

/-- `list_owner_t`. -/
inductive ListOwner
  | none
  | received
  | api
  deriving DecidableEq, Repr

/-! ## Preparing -/

/-- `BP7_BlockProcessor::prepare`. -/
def basePrepare (b : Outgoing) (owner : Processor) (xmit : List XmitBlock) (source : Option SourceBlock)
    (list : ListOwner) : Except Fault (List XmitBlock) :=
  if list = .received then
    match source with
    | none => .error .undefined
    | some s => .ok (xmit ++ [{ owner, source, blockNumber := s.blockNumber }])
  else
    match xmit with
    | [] => .error .undefined
    | first :: rest => do
      require (first.owner = .primary)
      if owner = .payload then .ok (first :: rest ++ [{ owner, source, blockNumber := 1 }])
      else
        let blockNumber := u64 (b.highestRcvdBlockNumber + (first :: rest).length)
        .ok (first :: { owner, source, blockNumber } :: rest)

/-- The processors' own `prepare`. -/
def prepare (b : Outgoing) (owner : Processor) (xmit : List XmitBlock) (source : Option SourceBlock)
    (list : ListOwner) : Except Fault (List XmitBlock) :=
  match owner with
  | .primary => do
    require (xmit = [])
    .ok (xmit ++ [{ owner := .primary, source }])
  | .payload => basePrepare b .payload xmit source list
  | .previousNode =>
    if list = .received then .ok xmit
    else if b.prevhopHdr = false then .ok xmit
    else basePrepare b .previousNode xmit source list
  | .bundleAge => if b.hasBundleAgeBlock then basePrepare b .bundleAge xmit source list else .ok xmit
  | .hopCount => if b.hopLimit = 0 then .ok xmit else basePrepare b .hopCount xmit source list
  | .imcDestinations =>
    if b.destIsImcScheme = false then .ok xmit else basePrepare b .imcDestinations xmit source list
  | .imcState =>
    if b.destIsImcScheme = false ∧ b.imcBriefing = false then .ok xmit
    else basePrepare b .imcState xmit source list
  | .unknown =>
    match source with
    | none => .error .assertFailed
    | some s => do
      require (s.owner = .unknown)
      if s.blockFlags.testBit 4 then .ok xmit else basePrepare b .unknown xmit source list

/-- `has_block`: a block that goes out has the type of its owner as long as it has no contents. -/
def hasBlock (xmit : List XmitBlock) (type : ℕ) : Bool := xmit.any fun x => x.owner.blockType = type

/-- The blocks that came in; behind the payload of a fragment made on arrival there are none. -/
def prepareReceived (b : Outgoing) (xmit : List XmitBlock) : List SourceBlock →
    Except Fault (List XmitBlock)
  | [] => .ok xmit
  | r :: recv =>
    if b.fragmentedIncoming ∧ hasBlock xmit Processor.payload.blockType then prepareReceived b xmit recv
    else do
      let xmit ← prepare b r.owner xmit (some r) .received
      prepareReceived b xmit recv

def prepareApi (b : Outgoing) (xmit : List XmitBlock) : List SourceBlock → Except Fault (List XmitBlock)
  | [] => .ok xmit
  | a :: api => do
    let xmit ← prepare b a.owner xmit (some a) .api
    prepareApi b xmit api

/-- The registered processors without a block. -/
def prepareRegistered (b : Outgoing) (xmit : List XmitBlock) : List ℕ → Except Fault (List XmitBlock)
  | [] => .ok xmit
  | i :: types =>
    if findProcessor i = .unknown then prepareRegistered b xmit types
    else if hasBlock xmit i then prepareRegistered b xmit types
    else do
      let xmit ← prepare b (findProcessor i) xmit none .none
      prepareRegistered b xmit types

/-- `prepare_blocks`; without a primary block in front there is no list. -/
def prepareBlocks (b : Outgoing) : Except Fault (Option (List XmitBlock)) := do
  match b.recvBlocks with
  | [] =>
    let xmit ← prepare b (findProcessor 0) [] none .none
    let xmit ← prepareApi b xmit b.apiBlocks
    some <$> prepareRegistered b xmit (List.range 256)
  | first :: recv =>
    if first.owner ≠ .primary then .ok none
    else do
      let xmit ← prepareReceived b [] (first :: recv)
      let xmit ← prepareApi b xmit b.apiBlocks
      some <$> prepareRegistered b xmit (List.range 256)

/-! ## Who has a block to send -/

/-- The processor sends a block of a list along, or adds one. -/
def forwards (b : Outgoing) (list : ListOwner) (owner : Processor) (source : Option SourceBlock) : Bool :=
  match owner with
  | .primary | .payload => true
  | .previousNode => list ≠ .received && b.prevhopHdr
  | .bundleAge => b.hasBundleAgeBlock
  | .hopCount => b.hopLimit ≠ 0
  | .imcDestinations => b.destIsImcScheme
  | .imcState => b.destIsImcScheme || b.imcBriefing
  | .unknown => source.any fun s => !s.blockFlags.testBit 4

section
variable (b : Outgoing)

theorem prepare_eq {owner : Processor} (howner : owner ≠ .primary) (xmit : List XmitBlock)
    {source : Option SourceBlock} (list : ListOwner)
    (hsource : owner = .unknown → ∃ s, source = some s ∧ s.owner = .unknown) :
    prepare b owner xmit source list =
      if forwards b list owner source then basePrepare b owner xmit source list else .ok xmit := by
  cases owner with
  | primary => exact absurd rfl howner
  | payload => rfl
  | previousNode =>
    unfold prepare forwards
    by_cases hlist : list = .received <;> cases b.prevhopHdr <;> simp [hlist]
  | bundleAge => rfl
  | hopCount =>
    unfold prepare forwards
    by_cases hlimit : b.hopLimit = 0 <;> simp [hlimit]
  | imcDestinations =>
    unfold prepare forwards
    cases b.destIsImcScheme <;> simp
  | imcState =>
    unfold prepare forwards
    cases b.destIsImcScheme <;> cases b.imcBriefing <;> simp
  | unknown =>
    obtain ⟨s, rfl, hs⟩ := hsource rfl
    unfold prepare forwards
    simp only [require_of hs, Option.any_some]
    by_cases hbit : s.blockFlags.testBit 4 = true
    · rw [if_pos hbit, if_neg (by simp [hbit])]
      rfl
    · rw [if_neg hbit, if_pos (by simp [hbit])]
      rfl

/-! ## The received blocks -/

/-- The block that goes out for one that came in. -/
def passedOn (r : SourceBlock) : XmitBlock :=
  { owner := r.owner, source := some r, blockNumber := r.blockNumber }

/-- The blocks that came in and go out. -/
def kept (recv : List SourceBlock) : List SourceBlock :=
  recv.filter fun r => forwards b .received r.owner (some r)

theorem prepareReceived_eq (hwhole : b.fragmentedIncoming = false) (xmit : List XmitBlock)
    {recv : List SourceBlock} (hrecv : ∀ r ∈ recv, r.owner ≠ .primary) :
    prepareReceived b xmit recv = .ok (xmit ++ (kept b recv).map passedOn) := by
  induction recv generalizing xmit with
  | nil => simp [prepareReceived, kept]
  | cons r recv ih =>
    have hr := hrecv r List.mem_cons_self
    have hrest : ∀ s ∈ recv, s.owner ≠ .primary := fun s hs => hrecv s (List.mem_cons_of_mem r hs)
    rw [prepareReceived, if_neg (by simp [hwhole]),
      prepare_eq b hr xmit .received (fun hu => ⟨r, rfl, hu⟩)]
    by_cases hforward : forwards b .received r.owner (some r) = true
    · rw [if_pos hforward]
      change prepareReceived b (xmit ++ [passedOn r]) recv = _
      have hkept : kept b (r :: recv) = r :: kept b recv := by simp [kept, hforward]
      rw [ih _ hrest, hkept, List.map_cons, List.append_assoc]
      rfl
    · rw [if_neg hforward]
      change prepareReceived b xmit recv = _
      have hkept : kept b (r :: recv) = kept b recv := by simp [kept, hforward]
      rw [ih _ hrest, hkept]

/-! ## The added blocks -/

/-- Blocks put in behind the primary block one after another, into a list of `n` blocks at first. -/
def inserted (n : ℕ) : List (Processor × Option SourceBlock) → List XmitBlock
  | [] => []
  | (owner, source) :: adds =>
    inserted (n + 1) adds ++
      [{ owner, source, blockNumber := u64 (b.highestRcvdBlockNumber + n) }]

theorem length_inserted (n : ℕ) (adds : List (Processor × Option SourceBlock)) :
    (inserted b n adds).length = adds.length := by
  induction adds generalizing n with
  | nil => rfl
  | cons add adds ih =>
    rw [inserted, List.length_append, ih]
    rfl

theorem basePrepare_insert {owner : Processor} (howner : owner ≠ .payload) {first : XmitBlock}
    (hfirst : first.owner = .primary) (rest : List XmitBlock) (source : Option SourceBlock)
    {list : ListOwner} (hlist : list ≠ .received) :
    basePrepare b owner (first :: rest) source list = .ok (first ::
      { owner, source, blockNumber := u64 (b.highestRcvdBlockNumber + (first :: rest).length) } :: rest) := by
  unfold basePrepare
  rw [if_neg hlist]
  simp only [require_of hfirst]
  exact if_neg howner

/-- The blocks of the application that go out. -/
def sentApi (api : List SourceBlock) : List (Processor × Option SourceBlock) :=
  (api.filter fun a => forwards b .api a.owner (some a)).map fun a => (a.owner, some a)

theorem prepareApi_eq {first : XmitBlock} (hfirst : first.owner = .primary) (rest : List XmitBlock)
    {api : List SourceBlock} (hapi : ∀ a ∈ api, a.owner.IsExtension) :
    prepareApi b (first :: rest) api =
      .ok (first :: (inserted b (first :: rest).length (sentApi b api) ++ rest)) := by
  induction api generalizing rest with
  | nil => rfl
  | cons a api ih =>
    obtain ⟨hprimary, hpayload⟩ := hapi a List.mem_cons_self
    have hrest : ∀ s ∈ api, s.owner.IsExtension := fun s hs => hapi s (List.mem_cons_of_mem a hs)
    rw [prepareApi, prepare_eq b hprimary _ .api (fun hu => ⟨a, rfl, hu⟩)]
    by_cases hforward : forwards b .api a.owner (some a) = true
    · rw [if_pos hforward, basePrepare_insert b hpayload hfirst rest _ (by decide)]
      change prepareApi b (first :: _ :: rest) api = _
      have hsent : sentApi b (a :: api) = (a.owner, some a) :: sentApi b api := by
        simp [sentApi, hforward]
      rw [ih _ hrest, hsent, inserted, List.append_assoc]
      rfl
    · rw [if_neg hforward]
      change prepareApi b (first :: rest) api = _
      have hsent : sentApi b (a :: api) = sentApi b api := by simp [sentApi, hforward]
      rw [ih _ hrest, hsent]

/-! ## The registered processors -/

/-- The types of the registered extension blocks, in the order of the loop. -/
def extensionTypes : List ℕ := [6, 7, 10, 195, 222]

/-- The processors without a block that add one. -/
def added (xmit : List XmitBlock) (types : List ℕ) : List (Processor × Option SourceBlock) :=
  (types.filter fun i => !hasBlock xmit i && forwards b .none (findProcessor i) none).map fun i =>
    (findProcessor i, none)

theorem prepareRegistered_filter (xmit : List XmitBlock) (types : List ℕ) :
    prepareRegistered b xmit types =
      prepareRegistered b xmit (types.filter fun i => findProcessor i ≠ .unknown) := by
  induction types generalizing xmit with
  | nil => rfl
  | cons i types ih =>
    by_cases hunknown : findProcessor i = .unknown
    · rw [prepareRegistered, if_pos hunknown, ih, List.filter_cons_of_neg (by simp [hunknown])]
    · rw [List.filter_cons_of_pos (by simp [hunknown]), prepareRegistered, prepareRegistered,
        if_neg hunknown, if_neg hunknown]
      split_ifs
      · exact ih xmit
      · congr 1
        funext next
        exact ih next

theorem registered_types :
    (List.range 256).filter (fun i => findProcessor i ≠ .unknown) = 0 :: 1 :: extensionTypes := by
  decide +kernel

theorem hasBlock_insert {x : XmitBlock} {i : ℕ} (hx : x.owner.blockType ≠ i) (first : XmitBlock)
    (rest : List XmitBlock) : hasBlock (first :: x :: rest) i = hasBlock (first :: rest) i := by
  simp [hasBlock, hx]

/-- The types are those of extension blocks, each once. -/
structure ExtensionTypes (types : List ℕ) : Prop where
  nodup : types.Nodup
  extension : ∀ i ∈ types, (findProcessor i).IsExtension
  known : ∀ i ∈ types, findProcessor i ≠ .unknown
  blockType : ∀ i ∈ types, (findProcessor i).blockType = i

theorem extensionTypes_spec : ExtensionTypes extensionTypes := by
  constructor <;> decide

theorem ExtensionTypes.tail {i : ℕ} {types : List ℕ} (h : ExtensionTypes (i :: types)) :
    ExtensionTypes types where
  nodup := h.nodup.of_cons
  extension := fun j hj => h.extension j (List.mem_cons_of_mem i hj)
  known := fun j hj => h.known j (List.mem_cons_of_mem i hj)
  blockType := fun j hj => h.blockType j (List.mem_cons_of_mem i hj)

theorem added_congr {xmit xmit' : List XmitBlock} {types : List ℕ}
    (h : ∀ i ∈ types, hasBlock xmit i = hasBlock xmit' i) : added b xmit types = added b xmit' types := by
  unfold added
  rw [List.filter_congr fun i hi => by rw [h i hi]]

theorem prepareRegistered_eq {first : XmitBlock} (hfirst : first.owner = .primary)
    (rest : List XmitBlock) {types : List ℕ} (htypes : ExtensionTypes types) :
    prepareRegistered b (first :: rest) types = .ok (first ::
      (inserted b (first :: rest).length (added b (first :: rest) types) ++ rest)) := by
  induction types generalizing rest with
  | nil => rfl
  | cons i types ih =>
    have hknown := htypes.known i List.mem_cons_self
    obtain ⟨hprimary, hpayload⟩ := htypes.extension i List.mem_cons_self
    rw [prepareRegistered, if_neg hknown]
    by_cases hhas : hasBlock (first :: rest) i = true
    · have hadded : added b (first :: rest) (i :: types) = added b (first :: rest) types := by
        simp [added, hhas]
      rw [if_pos hhas, ih rest htypes.tail, hadded]
    · rw [if_neg hhas, prepare_eq b hprimary _ .none (fun hu => absurd hu hknown)]
      by_cases hforward : forwards b .none (findProcessor i) none = true
      · have hadded : added b (first :: rest) (i :: types) =
            (findProcessor i, none) :: added b (first :: rest) types := by
          simp [added, hhas, hforward]
        rw [if_pos hforward, basePrepare_insert b hpayload hfirst rest _ (by decide)]
        change prepareRegistered b (first :: _ :: rest) types = _
        rw [ih _ htypes.tail, hadded, inserted, List.append_assoc]
        congr 4
        apply added_congr
        intro j hj
        apply hasBlock_insert
        rintro hij
        rw [htypes.blockType i List.mem_cons_self] at hij
        exact (List.nodup_cons.mp htypes.nodup).1 (hij ▸ hj)
      · have hadded : added b (first :: rest) (i :: types) = added b (first :: rest) types := by
          simp [added, hforward]
        rw [if_neg hforward]
        change prepareRegistered b (first :: rest) types = _
        rw [ih rest htypes.tail, hadded]

/-! ## The whole list -/

/-- A bundle that was created here, with extension blocks of the application; the list of blocks has
a size. -/
structure Created : Prop where
  recv : b.recvBlocks = []
  api : ∀ a ∈ b.apiBlocks, a.owner.IsExtension
  highest : b.highestRcvdBlockNumber = 1
  size : b.apiBlocks.length < 2 ^ 63

/-- A bundle that came in whole: the primary block, extension blocks, and the payload. -/
structure Received (first : SourceBlock) (exts : List SourceBlock) (payload : SourceBlock) : Prop where
  recv : b.recvBlocks = first :: (exts ++ [payload])
  api : b.apiBlocks = []
  first : first.owner = .primary ∧ first.blockNumber = 0
  exts : ∀ r ∈ exts, r.owner.IsExtension
  payload : payload.owner = .payload ∧ payload.blockNumber = 1
  numbers : (b.recvBlocks.map (·.blockNumber)).Nodup
  below : ∀ r ∈ b.recvBlocks, r.blockNumber < 2 ^ 64 - 256
  highest : b.highestRcvdBlockNumber = highestRcvd b.recvBlocks
  whole : b.fragmentedIncoming = false
  size : b.recvBlocks.length < 2 ^ 63

/-- The list that is made for a bundle that was created here. -/
def createdBlocks : List XmitBlock :=
  let first : XmitBlock := { owner := .primary, source := none }
  let payload : XmitBlock := { owner := .payload, source := none, blockNumber := 1 }
  let rest := inserted b 1 (sentApi b b.apiBlocks) ++ [payload]
  first :: (inserted b (first :: rest).length (added b (first :: rest) extensionTypes) ++ rest)

/-- The list that is made for a bundle that came in. -/
def receivedBlocks (first : SourceBlock) (recv : List SourceBlock) : List XmitBlock :=
  let rest := (kept b recv).map passedOn
  passedOn first ::
    (inserted b (passedOn first :: rest).length (added b (passedOn first :: rest) extensionTypes) ++ rest)

theorem blockType_ne_one {p : Processor} (h : p ≠ .payload) : p.blockType ≠ 1 := by
  cases p <;> simp_all [Processor.blockType]

theorem owner_inserted {n : ℕ} {adds : List (Processor × Option SourceBlock)} {x : XmitBlock}
    (hx : x ∈ inserted b n adds) : ∃ add ∈ adds, x.owner = add.1 ∧ x.source = add.2 := by
  induction adds generalizing n with
  | nil => simp [inserted] at hx
  | cons add adds ih =>
    rw [inserted, List.mem_append, List.mem_singleton] at hx
    rcases hx with hx | rfl
    · obtain ⟨add', hmem, heq⟩ := ih hx
      exact ⟨add', List.mem_cons_of_mem add hmem, heq⟩
    · exact ⟨add, List.mem_cons_self, rfl, rfl⟩

variable {b}

theorem prepareBlocks_created (h : Created b) : prepareBlocks b = .ok (some (createdBlocks b)) := by
  have hfirst : prepare b (findProcessor 0) [] none .none =
      .ok [{ owner := .primary, source := none }] := rfl
  have hapi : prepareApi b [{ owner := .primary, source := none }] b.apiBlocks = .ok
      ({ owner := .primary, source := none } :: (inserted b 1 (sentApi b b.apiBlocks) ++ [])) :=
    prepareApi_eq b rfl [] h.api
  rw [List.append_nil] at hapi
  have hpayload : hasBlock ({ owner := .primary, source := none } ::
      inserted b 1 (sentApi b b.apiBlocks)) 1 = false := by
    rw [hasBlock, List.any_eq_false]
    intro x hx
    rcases List.mem_cons.mp hx with rfl | hx
    · decide
    · obtain ⟨add, hadd, howner, -⟩ := owner_inserted b hx
      obtain ⟨a, ha, rfl⟩ := List.mem_map.mp hadd
      simpa [howner] using blockType_ne_one (h.api a (List.mem_filter.mp ha).1).2
  unfold prepareBlocks
  rw [h.recv]
  simp only [hfirst]
  change (do
    let xmit ← prepareApi b [{ owner := .primary, source := none }] b.apiBlocks
    some <$> prepareRegistered b xmit (List.range 256)) = _
  rw [hapi]
  change some <$> prepareRegistered b ({ owner := .primary, source := none } ::
    inserted b 1 (sentApi b b.apiBlocks)) (List.range 256) = _
  rw [prepareRegistered_filter, registered_types, prepareRegistered, if_neg (by decide), if_pos (by rfl),
    prepareRegistered, if_neg (by decide), if_neg (by simp [hpayload])]
  change some <$> prepareRegistered b ({ owner := .primary, source := none } ::
    (inserted b 1 (sentApi b b.apiBlocks) ++ [{ owner := .payload, source := none, blockNumber := 1 }]))
    extensionTypes = _
  rw [prepareRegistered_eq b rfl _ extensionTypes_spec]
  rfl

theorem prepareBlocks_received {first payload : SourceBlock} {exts : List SourceBlock}
    (h : Received b first exts payload) :
    prepareBlocks b = .ok (some (receivedBlocks b first (exts ++ [payload]))) := by
  have hrecv : ∀ r ∈ exts ++ [payload], r.owner ≠ .primary := by
    intro r hr
    rcases List.mem_append.mp hr with hr | hr
    · exact (h.exts r hr).1
    · rw [List.mem_singleton.mp hr, h.payload.1]
      decide
  have hfirst : prepare b first.owner [] (some first) .received = .ok [passedOn first] := by
    rw [h.first.1]
    simp [prepare, passedOn, h.first, require, bind, Except.bind]
  unfold prepareBlocks
  rw [h.recv]
  simp only
  rw [if_neg (by simp [h.first.1]), prepareReceived, if_neg (by simp [h.whole]), hfirst]
  change (do
    let xmit ← prepareReceived b [passedOn first] (exts ++ [payload])
    let xmit ← prepareApi b xmit b.apiBlocks
    some <$> prepareRegistered b xmit (List.range 256)) = _
  rw [prepareReceived_eq b h.whole _ hrecv, h.api]
  change some <$> prepareRegistered b (passedOn first :: (kept b (exts ++ [payload])).map passedOn)
    (List.range 256) = _
  have hpayload : hasBlock (passedOn first :: (kept b (exts ++ [payload])).map passedOn) 1 = true := by
    rw [hasBlock, List.any_eq_true]
    refine ⟨passedOn payload, List.mem_cons_of_mem _ (List.mem_map_of_mem ?_), ?_⟩
    · simp [kept, forwards, h.payload.1]
    · simp [passedOn, h.payload.1, Processor.blockType]
  have hprimary : hasBlock (passedOn first :: (kept b (exts ++ [payload])).map passedOn) 0 = true := by
    simp [hasBlock, passedOn, h.first.1, Processor.blockType]
  rw [prepareRegistered_filter, registered_types, prepareRegistered, if_neg (by decide), if_pos hprimary,
    prepareRegistered, if_neg (by decide), if_pos hpayload,
    prepareRegistered_eq b h.first.1 _ extensionTypes_spec]
  rfl

end

end Dtnme.Bundling.Bp7
