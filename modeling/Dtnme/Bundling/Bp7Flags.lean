import Dtnme.Bundling.Bp7Prepare
import Dtnme.Bundling.CanonicalBlock

/-! # The flags of a forwarded block

A block that is sent along is a new one, which takes its number from the block that came in. Its flags
are only set if there is no such block, so that a forwarded block goes out with none.
-/

namespace Dtnme.Bundling.Bp7
open Library TinyCbor

/-! ## In and out -/

/-- A block after it was decoded. -/
def arrived (owner : Processor) (buf : List UInt8) : SourceBlock :=
  let info := (decodeCanonicalBlock buf).1.foldl BlockWrite.apply { type := .extension owner.blockType }
  { owner, blockNumber := info.blockNumber, blockFlags := info.blockFlags }

/-- `encode_crc`, behind the bytes of the block: zeros stand for the value while it is computed. -/
def encodeCrc (crcType : ℕ) (block : List UInt8) : List UInt8 :=
  if crcType = 0 then []
  else
    let head := Cbor.head 2 (crcSize crcType)
    let zeroes := List.replicate (crcSize crcType) 0
    head ++ Cbor.bigEndian (crcSize crcType) (calcCrc crcType (block ++ (head ++ zeroes)))

def encodeCanonicalBlock (x : XmitBlock) (data : List UInt8) : List UInt8 :=
  let arraySize := if 0 < x.crcType then 6 else 5
  let block := Cbor.head 4 arraySize ++ (Cbor.head 0 x.owner.blockType ++ (Cbor.head 0 x.blockNumber ++
    (Cbor.head 0 x.blockFlags ++ (Cbor.head 0 x.crcType ++ (Cbor.head 2 data.length ++ data)))))
  block ++ encodeCrc x.crcType block

/-- The flags of a block that this node adds. -/
def defaultFlags : Processor → ℕ
  | .bundleAge | .hopCount => 1
  | _ => 0

/-- `generate` of an extension block, with the data that its processor encodes. -/
def generate (x : XmitBlock) (data : List UInt8) : List UInt8 :=
  encodeCanonicalBlock (if x.source = none then { x with blockFlags := defaultFlags x.owner } else x) data

/-! ## Blocks as they are prepared -/

/-- Nothing but the number was set since the block was made. -/
structure Fresh (x : XmitBlock) : Prop where
  flags : x.blockFlags = 0
  crcType : x.crcType = 0
  number : x.blockNumber < 2 ^ 64 ∨ ∃ r, x.source = some r ∧ x.blockNumber = r.blockNumber

section
variable {b : Outgoing}

theorem fresh_append {xmit : List XmitBlock} {y : XmitBlock} (hxmit : ∀ x ∈ xmit, Fresh x)
    (hy : Fresh y) : ∀ x ∈ xmit ++ [y], Fresh x := by
  intro x hx
  rcases List.mem_append.mp hx with hx | hx
  · exact hxmit x hx
  · rw [List.mem_singleton.mp hx]
    exact hy

theorem basePrepare_fresh {owner : Processor} {xmit xmit' : List XmitBlock} {source : Option SourceBlock}
    {list : ListOwner} (h : basePrepare b owner xmit source list = .ok xmit')
    (hxmit : ∀ x ∈ xmit, Fresh x) : ∀ x ∈ xmit', Fresh x := by
  unfold basePrepare at h
  by_cases hlist : list = .received
  · rw [if_pos hlist] at h
    cases source with
    | none => cases h
    | some s =>
      cases h
      exact fresh_append hxmit ⟨rfl, rfl, .inr ⟨s, rfl, rfl⟩⟩
  · rw [if_neg hlist] at h
    cases xmit with
    | nil => cases h
    | cons first rest =>
      simp only at h
      by_cases hfirst : first.owner = .primary
      · rw [require_of hfirst] at h
        by_cases hpayload : owner = .payload
        · rw [if_pos hpayload] at h
          cases h
          exact fresh_append hxmit ⟨rfl, rfl, .inl (by norm_num)⟩
        · rw [if_neg hpayload] at h
          cases h
          intro x hx
          rcases List.mem_cons.mp hx with rfl | hx
          · exact hxmit x List.mem_cons_self
          · rcases List.mem_cons.mp hx with rfl | hx
            · exact ⟨rfl, rfl, .inl (u64_lt _)⟩
            · exact hxmit x (List.mem_cons_of_mem first hx)
      · rw [require, if_neg hfirst] at h
        cases h

/-- A processor adds its block, or none. -/
theorem prepare_cases {owner : Processor} {xmit xmit' : List XmitBlock} {source : Option SourceBlock}
    {list : ListOwner} (h : prepare b owner xmit source list = .ok xmit') :
    xmit' = xmit ∨ xmit' = xmit ++ [{ owner := .primary, source }] ∨
      basePrepare b owner xmit source list = .ok xmit' := by
  by_cases hprimary : owner = .primary
  · subst hprimary
    unfold prepare require at h
    by_cases hnil : xmit = []
    · rw [if_pos hnil] at h
      cases h
      exact .inr (.inl rfl)
    · rw [if_neg hnil] at h
      cases h
  · by_cases hsource : owner = .unknown → ∃ s, source = some s ∧ s.owner = .unknown
    · rw [prepare_eq b hprimary xmit list hsource] at h
      split_ifs at h
      · exact .inr (.inr h)
      · cases h
        exact .inl rfl
    · push Not at hsource
      obtain ⟨rfl, hsource⟩ := hsource
      cases source with
      | none => cases h
      | some s =>
        unfold prepare require at h
        simp only [if_neg (hsource s rfl)] at h
        cases h

theorem prepare_fresh {owner : Processor} {xmit xmit' : List XmitBlock} {source : Option SourceBlock}
    {list : ListOwner} (h : prepare b owner xmit source list = .ok xmit') (hxmit : ∀ x ∈ xmit, Fresh x) :
    ∀ x ∈ xmit', Fresh x := by
  rcases prepare_cases h with rfl | rfl | hbase
  · exact hxmit
  · exact fresh_append hxmit ⟨rfl, rfl, .inl (by norm_num)⟩
  · exact basePrepare_fresh hbase hxmit

/-- One of the passes of `prepare_blocks`: a step, and the rest. -/
theorem fresh_of_bind {d : Except Fault (List XmitBlock)}
    {f : List XmitBlock → Except Fault (List XmitBlock)} {xmit' : List XmitBlock}
    (h : (d >>= f) = .ok xmit') (hd : ∀ xmit, d = .ok xmit → ∀ x ∈ xmit, Fresh x)
    (hf : ∀ xmit, (∀ x ∈ xmit, Fresh x) → f xmit = .ok xmit' → ∀ x ∈ xmit', Fresh x) :
    ∀ x ∈ xmit', Fresh x := by
  cases d with
  | error e => cases h
  | ok xmit => exact hf xmit (hd xmit rfl) h

theorem prepareReceived_fresh {xmit xmit' : List XmitBlock} {recv : List SourceBlock}
    (h : prepareReceived b xmit recv = .ok xmit') (hxmit : ∀ x ∈ xmit, Fresh x) :
    ∀ x ∈ xmit', Fresh x := by
  induction recv generalizing xmit with
  | nil =>
    cases h
    exact hxmit
  | cons r recv ih =>
    rw [prepareReceived] at h
    split_ifs at h
    · exact ih h hxmit
    · exact fresh_of_bind h (fun _ hd => prepare_fresh hd hxmit) (fun _ hx hf => ih hf hx)

theorem prepareApi_fresh {xmit xmit' : List XmitBlock} {api : List SourceBlock}
    (h : prepareApi b xmit api = .ok xmit') (hxmit : ∀ x ∈ xmit, Fresh x) : ∀ x ∈ xmit', Fresh x := by
  induction api generalizing xmit with
  | nil =>
    cases h
    exact hxmit
  | cons a api ih =>
    rw [prepareApi] at h
    exact fresh_of_bind h (fun _ hd => prepare_fresh hd hxmit) (fun _ hx hf => ih hf hx)

theorem prepareRegistered_fresh {xmit xmit' : List XmitBlock} {types : List ℕ}
    (h : prepareRegistered b xmit types = .ok xmit') (hxmit : ∀ x ∈ xmit, Fresh x) :
    ∀ x ∈ xmit', Fresh x := by
  induction types generalizing xmit with
  | nil =>
    cases h
    exact hxmit
  | cons i types ih =>
    rw [prepareRegistered] at h
    split_ifs at h
    · exact ih h hxmit
    · exact ih h hxmit
    · exact fresh_of_bind h (fun _ hd => prepare_fresh hd hxmit) (fun _ hx hf => ih hf hx)

/-- Every block of a list is as it was made. -/
theorem prepareBlocks_fresh {xmit : List XmitBlock} (h : prepareBlocks b = .ok (some xmit)) :
    ∀ x ∈ xmit, Fresh x := by
  have hlater : ∀ {xmit₀ : List XmitBlock}, (do
      let xmit ← prepareApi b xmit₀ b.apiBlocks
      some <$> prepareRegistered b xmit (List.range 256)) = .ok (some xmit) →
      (∀ x ∈ xmit₀, Fresh x) → ∀ x ∈ xmit, Fresh x := by
    intro xmit₀ hdo hxmit₀
    rcases hapi : prepareApi b xmit₀ b.apiBlocks with e | xmit₁
    · rw [hapi] at hdo
      cases hdo
    · rw [hapi] at hdo
      change some <$> prepareRegistered b xmit₁ (List.range 256) = _ at hdo
      rcases hlast : prepareRegistered b xmit₁ (List.range 256) with e | xmit₂
      · rw [hlast] at hdo
        cases hdo
      · rw [hlast] at hdo
        cases hdo
        exact prepareRegistered_fresh hlast (prepareApi_fresh hapi hxmit₀)
  unfold prepareBlocks at h
  cases hrecv : b.recvBlocks with
  | nil =>
    rw [hrecv] at h
    exact hlater h (by simpa using ⟨rfl, rfl, .inl (by norm_num)⟩)
  | cons first recv =>
    rw [hrecv] at h
    simp only at h
    split_ifs at h
    · cases h
    · rcases hpass : prepareReceived b [] (first :: recv) with e | xmit₀
      · rw [hpass] at h
        cases h
      · rw [hpass] at h
        exact hlater h (prepareReceived_fresh hpass (by simp))

end

/-! ## The flags -/

/-- A fresh block with a source goes out without flags. -/
theorem generate_flags {x : XmitBlock} (hx : Fresh x) {r : SourceBlock} (hsource : x.source = some r)
    (hnumber : r.blockNumber < 2 ^ 64) {data : List UInt8} (hdata : data.length < 2 ^ 64)
    (owner : Processor) : (arrived owner (generate x data)).blockFlags = 0 := by
  have hn : x.blockNumber < 2 ^ 64 := by
    rcases hx.number with hlt | ⟨r', hr', heq⟩
    · exact hlt
    · rw [hsource] at hr'
      cases hr'
      omega
  have htype : x.owner.blockType < 2 ^ 64 := by
    cases x.owner <;> simp [Processor.blockType]
  have hbytes : generate x data = Cbor.head 4 5 ++ (Cbor.head 0 x.owner.blockType ++
      (Cbor.head 0 x.blockNumber ++ (Cbor.head 0 0 ++ (Cbor.head 0 0 ++
        (Cbor.head 2 data.length ++ (data ++ [])))))) := by
    unfold generate
    rw [if_neg (by simp [hsource])]
    unfold encodeCanonicalBlock encodeCrc
    rw [hx.crcType, hx.flags]
    simp
  obtain ⟨dataOffset, -, hdecode⟩ := decodeCanonicalBlock_plain
    (Cbor.IsHead.of_head (by omega) (by norm_num)) (Cbor.IsHead.of_head (by omega) htype)
    (Cbor.IsHead.of_head (by omega) hn) (Cbor.IsHead.of_head (by omega) (by norm_num))
    (Cbor.IsHead.of_head (by omega) (by norm_num)) (Cbor.IsHead.of_head (by omega) hdata) hbytes
  unfold arrived
  rw [hdecode]
  rfl

/-- A forwarded block goes out with the flags it came in with exactly if these are none. -/
theorem forwarded_flags_iff (b : Outgoing) (xmit : List XmitBlock) (owner : Processor)
    (buf data : List UInt8) (len : ℕ) (x : XmitBlock) (hprepare : prepareBlocks b = .ok (some xmit))
    (_howner : owner = .bundleAge ∨ owner = .hopCount ∨ owner = .imcState)
    (hdecode : Yields decodeCanonicalBlock buf len) (hx : x ∈ xmit)
    (hsource : x.source = some (arrived owner buf)) (hdata : data.length < 2 ^ 64) :
    (arrived owner (generate x data)).blockFlags = (arrived owner buf).blockFlags ↔
      (arrived owner buf).blockFlags = 0 := by
  obtain ⟨number, flags, n, f, hn, -, hnumber, -⟩ :=
    decodeCanonicalBlock_fields hdecode { type := .extension owner.blockType }
  have hlt : (arrived owner buf).blockNumber < 2 ^ 64 := by
    change ((decodeCanonicalBlock buf).1.foldl BlockWrite.apply _).blockNumber < _
    rw [hnumber]
    exact hn.value_lt
  rw [generate_flags (prepareBlocks_fresh hprepare x hx) hsource hlt hdata]
  exact eq_comm

/-- A bundle age block with the number 2. -/
def ageBlock (flags : UInt8) : List UInt8 := [0x85, 7, 2, flags, 0, 0x41, 9]

def ageBundle (flags : UInt8) : Outgoing where
  recvBlocks := [{ owner := .primary, blockNumber := 0 }, arrived .bundleAge (ageBlock flags),
    { owner := .payload, blockNumber := 1 }]
  highestRcvdBlockNumber := 2
  hasBundleAgeBlock := true

def ageXmit (flags : UInt8) : XmitBlock :=
  { owner := .bundleAge, source := some (arrived .bundleAge (ageBlock flags)), blockNumber := 2 }

def ageXmits (flags : UInt8) : List XmitBlock :=
  [{ owner := .primary, source := some { owner := .primary, blockNumber := 0 } }, ageXmit flags,
    { owner := .payload, source := some { owner := .payload, blockNumber := 1 }, blockNumber := 1 }]

theorem forwarded_flags_iff_age :
    (arrived .bundleAge (generate (ageXmit 0) [9])).blockFlags =
        (arrived .bundleAge (ageBlock 0)).blockFlags ↔
      (arrived .bundleAge (ageBlock 0)).blockFlags = 0 :=
  forwarded_flags_iff (ageBundle 0) (ageXmits 0) .bundleAge (ageBlock 0) [9] 7 (ageXmit 0)
    (by decide +kernel) (.inl rfl) (by unfold Yields; decide +kernel) (by decide +kernel) rfl (by decide)

/-- The flag that asks for the block in every fragment is lost. -/
theorem forwarded_flags_lost : prepareBlocks (ageBundle 1) = .ok (some (ageXmits 1)) ∧
    ageXmit 1 ∈ ageXmits 1 ∧ (ageXmit 1).source = some (arrived .bundleAge (ageBlock 1)) ∧
    (arrived .bundleAge (generate (ageXmit 1) [9])).blockFlags ≠
      (arrived .bundleAge (ageBlock 1)).blockFlags := by
  exact ⟨by decide +kernel, by decide +kernel, rfl, by decide +kernel⟩

end Dtnme.Bundling.Bp7
