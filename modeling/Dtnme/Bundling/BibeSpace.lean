import Dtnme.Bundling.CborUtil
import Dtnme.Bundling.PayloadSpace

/-! # Space for encapsulated bundles

The encapsulation thread reserves space for the largest payload the new bundle can get and swaps it for
the payload's size. The extractor reserves space for the inner bundle, gives back that of the outer
bundle except for one byte, and cuts the outer payload to this byte, whose space is given back when the
bundle is released. All other operations are those of `PayloadSpace`.
-/

namespace Dtnme.Bundling
open Library

/-- What `encapsulate_bundle` uses of the bundle and its blocks, and whether the thread is told to stop
before the attempt to reserve space or right after it. -/
structure Encapsulation where
  isBpv6 : Bool
  formattedLen : ℕ
  transmissionId : ℕ := 0
  retransmitTime : ℕ := 0
  hasBlocks : Bool := true
  stopBefore : Bool := false
  stopAfter : Bool := false
  formattedLen_pos : 0 < formattedLen := by decide
  deriving DecidableEq

namespace Encapsulation

def adminHeaderMaxLen : ℕ := 22

def bstrHeaderLen (e : Encapsulation) : ℕ := uint64EncodingLen e.formattedLen

def maxTotalLen (e : Encapsulation) : ℕ := adminHeaderMaxLen + e.formattedLen + e.bstrHeaderLen

/-- The bytes in front of the bundle: the record type of version 6, two array headers around the
record type, the transmission id, the retransmission time and the header of the byte string. -/
def headerLen (e : Encapsulation) : ℕ :=
  (if e.isBpv6 then 1 else 0) + uint64EncodingLen 2 + uint64EncodingLen 3 + uint64EncodingLen 3 +
    uint64EncodingLen e.transmissionId + uint64EncodingLen e.retransmitTime + e.bstrHeaderLen

/-- The loop that appends the formatted bundle to the payload; the first chunk follows the header. -/
def appendChunks (blockSize : ℕ) : ℕ → ℕ → ℕ → ℕ → ℕ
  | 0, _, _, payload => payload
  | fuel + 1, scratchLen, formattedLen, payload =>
    if formattedLen = 0 then payload
    else
      let chunkSize := min (blockSize - scratchLen) formattedLen
      appendChunks blockSize fuel 0 (formattedLen - chunkSize) (payload + (scratchLen + chunkSize))

def payloadLen (e : Encapsulation) : ℕ :=
  appendChunks (4 * 1024 * 1024) e.formattedLen e.headerLen e.formattedLen 0

theorem appendChunks_eq {blockSize : ℕ} (fuel : ℕ) {scratchLen formattedLen : ℕ}
    (hfuel : formattedLen ≤ fuel) (hscratch : scratchLen < blockSize) (payload : ℕ) :
    appendChunks blockSize fuel scratchLen formattedLen payload =
      if formattedLen = 0 then payload else payload + scratchLen + formattedLen := by
  induction fuel generalizing scratchLen formattedLen payload with
  | zero => simp [appendChunks, Nat.le_zero.mp hfuel]
  | succ fuel ih =>
    by_cases hlen : formattedLen = 0
    · simp [appendChunks, hlen]
    · simp only [appendChunks, if_neg hlen]
      rw [ih (by omega) (by omega)]
      split_ifs <;> omega

theorem headerLen_le (e : Encapsulation) : e.headerLen ≤ adminHeaderMaxLen + e.bstrHeaderLen := by
  have htransmission := (uint64EncodingLen_le e.transmissionId).2
  have hretransmit := (uint64EncodingLen_le e.retransmitTime).2
  have hversion : (if e.isBpv6 then 1 else 0) ≤ 1 := by split_ifs <;> omega
  simp only [headerLen, adminHeaderMaxLen, show uint64EncodingLen 2 = 1 from rfl,
    show uint64EncodingLen 3 = 1 from rfl]
  omega

theorem payloadLen_eq (e : Encapsulation) : e.payloadLen = e.headerLen + e.formattedLen := by
  have hheader := e.headerLen_le
  have hbstr := (uint64EncodingLen_le e.formattedLen).2
  have hpos := e.formattedLen_pos
  simp only [adminHeaderMaxLen, bstrHeaderLen] at hheader
  rw [payloadLen, appendChunks_eq _ le_rfl (by omega), if_neg hpos.ne', Nat.zero_add]

/-- The estimate is large enough. -/
theorem payloadLen_le (e : Encapsulation) : e.payloadLen ≤ e.maxTotalLen := by
  have hheader := e.headerLen_le
  rw [payloadLen_eq, maxTotalLen]
  omega

end Encapsulation

namespace PayloadSpace

def setLength (s : PayloadSpace) (b : ℕ) (n : UInt64) : PayloadSpace :=
  { s with length := Function.update s.length b n }

/-- One round of the loop of `BIBE::encapsulate_bundle` that reserves space, and all that follows it
when space was reserved for the new bundle `b`; without space the loop goes round again later. -/
def encapsulateBundle (s : PayloadSpace) (b : ℕ) (e : Encapsulation) : Except Fault PayloadSpace :=
  if !e.hasBlocks || e.stopBefore then .ok s
  else
    match s.tryReservePayloadSpace (.ofNat e.maxTotalLen) with
    | none => .ok s
    | some s =>
      if e.stopAfter then .ok s
      else do
        require (UInt64.ofNat e.payloadLen ≤ .ofNat e.maxTotalLen)
        let s ← ((s.setLength b (.ofNat e.payloadLen)).reservePayloadSpace b).releasePayloadSpace
          (.ofNat e.maxTotalLen)
        s.queryAcceptBundleBasedOnQuotas b 0

/-- `extract_bundle`, whose outer payload holds a valid inner bundle or not. -/
def extractBundle (s : PayloadSpace) (outer inner : ℕ) (innerLen : UInt64) (valid : Bool) :
    Except Fault PayloadSpace :=
  if valid then do
    let s ← ((s.setLength inner innerLen).reservePayloadSpace inner).releasePayloadSpace
      (s.length outer - 1)
    pure (s.setLength outer 1)
  else .ok s

inductive BibeOp
  | storage (op : Op)
  | encapsulate (b : ℕ) (e : Encapsulation)
  | extract (outer inner : ℕ) (innerLen : UInt64) (valid : Bool)
  deriving DecidableEq

def bibeStep (s : PayloadSpace) : BibeOp → Except Fault PayloadSpace
  | .storage op => s.step op
  | .encapsulate b e => s.encapsulateBundle b e
  | .extract outer inner innerLen valid => s.extractBundle outer inner innerLen valid

/-! ## One byte less -/

theorem roundedSize_eq {blockSize : ℕ} (hB : 0 < blockSize) (n : ℕ) :
    roundedSize blockSize n = blockSize * (n / blockSize + 1) := by
  rw [roundedSize, Nat.add_div_right _ hB]

/-- The blocks of a payload are those of all bytes but one and of this byte only if the payload fills
its blocks. -/
theorem roundedSize_split_iff {blockSize n : ℕ} (hB : 0 < blockSize) (hn : 0 < n) :
    roundedSize blockSize n = roundedSize blockSize (n - 1) + roundedSize blockSize 1 ↔
      blockSize ∣ n ∧ 1 < blockSize := by
  obtain ⟨m, rfl⟩ := Nat.exists_eq_add_of_lt hn
  simp only [Nat.zero_add, Nat.add_sub_cancel, roundedSize_eq hB, ← Nat.mul_add]
  rw [Nat.mul_right_inj hB.ne', Nat.succ_div]
  rcases Nat.lt_or_ge 1 blockSize with h1 | h1
  · rw [Nat.div_eq_of_lt h1]
    simp [h1]
  · have : blockSize = 1 := by omega
    simp [this]

theorem toNat_sub_one {n : UInt64} (h : 0 < n) : (n - 1).toNat = n.toNat - 1 := by
  have hone : (1 : UInt64) ≤ n := UInt64.le_iff_toNat_le.mpr (UInt64.lt_iff_toNat_lt.mp h)
  rw [UInt64.toNat_sub_of_le _ _ hone]
  rfl

/-! ## What the operations keep -/

theorem Ledger.setLength {s : PayloadSpace} {H : Finset ℕ} (h : Ledger s H) {b : ℕ} (hb : b ∉ H)
    (n : UInt64) : Ledger (s.setLength b n) H := by
  have hsame : ∀ c ∈ H, (s.setLength b n).length c = s.length c :=
    fun c hc => Function.update_of_ne (ne_of_mem_of_not_mem hc hb) ..
  refine ⟨⟨?_, ?_⟩, fun c hc => ?_, h.temp⟩
  · rw [Finset.sum_congr rfl (fun c hc => congrArg UInt64.toNat (hsame c hc))]
    exact h.exact.1
  · rw [Finset.sum_congr rfl (fun c hc => congrArg _ (hsame c hc))]
    exact h.exact.2
  · rw [hsame c hc]
    exact h.bundle c hc

theorem Core.setLength {s : PayloadSpace} {H : Finset ℕ} {P : List (ℕ × ℤ)} (h : Core s H P) {b : ℕ}
    (hb : ∀ p ∈ P, p.1 ≠ b) (n : UInt64) : Core (s.setLength b n) H P where
  holds := h.holds
  sane := h.sane
  inDb := h.inDb
  waiting p hp := by
    have hsame : (s.setLength b n).length p.1 = s.length p.1 := Function.update_of_ne (hb p hp) ..
    refine ⟨(h.waiting p hp).freed, (h.waiting p hp).holds, ?_, ?_, ?_⟩
    · rw [sizeAndFlag, hsame]
      exact (h.waiting p hp).size
    · rw [hsame]
      exact (h.waiting p hp).nonempty
    · rw [hsame]
      exact (h.waiting p hp).short
  waits := h.waits
  nodup := h.nodup
  updating := h.updating

/-- A bundle without space gets its payload. -/
theorem Inv.setLength {s : PayloadSpace} {H : Finset ℕ} {P : List (ℕ × ℤ)} (h : Inv s H P) {b : ℕ}
    (hb : b ∉ H) (n : UInt64) : Inv (s.setLength b n) H P :=
  ⟨h.toCore.setLength
    (fun p hp => ne_of_mem_of_not_mem ((h.holds _).mpr (h.waiting p hp).holds) hb) n,
    h.books.setLength hb n⟩

theorem reservePayloadSpace_waitingList (s : PayloadSpace) (b : ℕ) :
    (s.reservePayloadSpace b).waitingList = s.waitingList := by
  obtain ⟨hqueue, hdel, -⟩ := s.reservePayloadSpace_queue b
  rw [waitingList, waitingList, hqueue, hdel]

theorem Core.notMem_of_new {s : PayloadSpace} {H : Finset ℕ} {P : List (ℕ × ℤ)} (h : Core s H P)
    {b : ℕ} (hb : s.bundles b = {}) : b ∉ H := by
  intro hm
  have := ((h.holds b).mp hm).1
  simp [hb] at this

theorem Inv.reserveNew {s : PayloadSpace} {H : Finset ℕ} (h : Inv s H s.waitingList) {b : ℕ}
    (hb : s.bundles b = {}) {n : UInt64} (hroom : s.store.Room n) :
    ∃ H', Inv ((s.setLength b n).reservePayloadSpace b) H'
      ((s.setLength b n).reservePayloadSpace b).waitingList := by
  have hset := h.setLength (h.toCore.notMem_of_new hb) n
  have hself : (s.setLength b n).length b = n := Function.update_self ..
  obtain ⟨H', hres⟩ := hset.reservePayloadSpace (b := b) (congrArg StoredBundle.freed hb)
    (Or.inr (by rw [hself]; exact hroom))
  refine ⟨H', ?_⟩
  rw [reservePayloadSpace_waitingList]
  exact hres

/-- The estimate is a word of its own size. -/
theorem toNat_maxTotalLen {e : Encapsulation} (h : e.maxTotalLen < 2 ^ 64) :
    (UInt64.ofNat e.payloadLen).toNat = e.payloadLen ∧
      UInt64.ofNat e.payloadLen ≤ UInt64.ofNat e.maxTotalLen := by
  have hpayload : (UInt64.ofNat e.payloadLen).toNat = e.payloadLen :=
    UInt64.toNat_ofNat_of_lt' (lt_of_le_of_lt e.payloadLen_le h)
  refine ⟨hpayload, UInt64.le_iff_toNat_le.mpr ?_⟩
  rw [hpayload, UInt64.toNat_ofNat_of_lt' h]
  exact e.payloadLen_le

theorem Inv.encapsulateBundle {s : PayloadSpace} {H : Finset ℕ} (h : Inv s H s.waitingList) {b : ℕ}
    (hb : s.bundles b = {}) {e : Encapsulation}
    (hstop : e.stopAfter = true → e.hasBlocks = false ∨ e.stopBefore = true ∨
      s.tryReservePayloadSpace (.ofNat e.maxTotalLen) = none)
    (hlen : e.maxTotalLen < 2 ^ 64) (hroom : s.store.Room (.ofNat e.maxTotalLen))
    (hagain : (s.store.tryReservePayloadSpace (.ofNat e.maxTotalLen)).1 = true →
      (s.store.tryReservePayloadSpace (.ofNat e.maxTotalLen)).2.Room (.ofNat e.payloadLen)) :
    ∃ t H', s.encapsulateBundle b e = .ok t ∧ Inv t H' t.waitingList := by
  by_cases hskip : (!e.hasBlocks || e.stopBefore) = true
  · exact ⟨s, H, if_pos hskip, h⟩
  · rw [PayloadSpace.encapsulateBundle, if_neg hskip]
    rcases tryReservePayloadSpace_of hroom with hnone | ⟨htry, hsome, hst⟩
    · refine ⟨s, H, ?_, h⟩
      rw [hnone]
    · have hafter : ¬ e.stopAfter = true := by
        intro hs
        simp [hsome] at hstop hskip
        simp [hskip, hs] at hstop
      set n := UInt64.ofNat e.payloadLen
      have hle : n ≤ UInt64.ofNat e.maxTotalLen := (toNat_maxTotalLen hlen).2
      have hset := h.setLength (h.toCore.notMem_of_new hb) n
      have hself : (s.setLength b n).length b = n := Function.update_self ..
      have hr : ¬ ((s.setLength b n).bundles b).payloadSpaceReserved = true := by
        change ¬ (s.bundles b).payloadSpaceReserved = true
        simp [hb]
      obtain ⟨st', hok, hst'⟩ := release_reserve (s := s.setLength b n) hr hroom.1.1 hst
        (by rw [hself]; exact hagain htry)
      have hround : ((s.setLength b n).length b).toNat + (s.setLength b n).store.blockSize.toNat <
          2 ^ 64 := by
        have hword := UInt64.le_iff_toNat_le.mp hle
        have hmax := hroom.1.1
        rw [hself]
        change n.toNat + s.store.blockSize.toNat < 2 ^ 64
        omega
      refine ⟨(s.setLength b n).hold b st', _, ?_,
        hset.hold (congrArg StoredBundle.freed hb) hr hround hst'⟩
      have hreserved : (((s.setLength b n).hold b st').bundles b).payloadSpaceReserved = true := by
        rw [PayloadSpace.hold, setBundle_self]
      rw [hsome]
      simp only [if_neg hafter, require_of hle, ok_bind]
      refine Eq.trans (congrArg (· >>= _) hok) ?_
      rw [ok_bind, queryAcceptBundleBasedOnQuotas, if_pos hreserved, if_pos rfl]

/-- Space for all bytes but one is given back, and the payload is cut to this byte. -/
theorem Ledger.truncate {s : PayloadSpace} {H : Finset ℕ} (h : Ledger s H) {b : ℕ} (hb : b ∈ H)
    (hlen : 0 < s.length b)
    (hdisk : s.store.exactDiskSize (s.length b) =
      s.store.exactDiskSize (s.length b - 1) + s.store.exactDiskSize 1) :
    s.releasePayloadSpace (s.length b - 1) = .ok (s.withStore (s.store.uncharge (s.length b - 1))) ∧
      Ledger ((s.withStore (s.store.uncharge (s.length b - 1))).setLength b 1) H := by
  have hone := toNat_sub_one hlen
  have hpos : 0 < (s.length b).toNat := UInt64.lt_iff_toNat_lt.mp hlen
  have hfit := h.bundle b hb
  obtain ⟨hsize, hdsize⟩ := h.exact
  rw [← Finset.add_sum_erase H _ hb] at hsize hdsize
  obtain ⟨hok, hblock, -, hsize', hdisk'⟩ :=
    releasePayloadSpace_of (s := s) (n := s.length b - 1) (by omega) (by omega) (by omega)
  set t := (s.withStore (s.store.uncharge (s.length b - 1))).setLength b 1
  have hself : t.length b = 1 := Function.update_self ..
  have hrest : ∀ c ∈ H.erase b, t.length c = s.length c :=
    fun c hc => Function.update_of_ne (Finset.ne_of_mem_erase hc) ..
  refine ⟨releasePayloadSpace_eq hok, ⟨?_, ?_⟩, fun c hc => ?_, h.temp⟩
  · rw [← Finset.add_sum_erase H _ hb, hself,
      Finset.sum_congr rfl (fun c hc => congrArg UInt64.toNat (hrest c hc))]
    change (s.store.uncharge (s.length b - 1)).totalSize.toNat =
      1 + ∑ c ∈ H.erase b, (s.length c).toNat + (s.temps.map UInt64.toNat).sum
    rw [← hsize']
    change s.store.totalSize.toNat - (s.length b - 1).toNat = _
    omega
  · rw [← Finset.add_sum_erase H _ hb, hself,
      Finset.sum_congr rfl (fun c hc => congrArg _ (hrest c hc))]
    change (s.store.uncharge (s.length b - 1)).totalDiskSize.toNat = s.store.exactDiskSize 1 +
      ∑ c ∈ H.erase b, s.store.exactDiskSize (s.length c) + (s.temps.map s.store.exactDiskSize).sum
    rw [← hdisk']
    change s.store.totalDiskSize.toNat - s.store.exactDiskSize (s.length b - 1) = _
    omega
  · change (t.length c).toNat + s.store.blockSize.toNat < 2 ^ 64
    by_cases hcb : c = b
    · rw [hcb, hself]
      change 1 + _ < _
      omega
    · rw [hrest c (Finset.mem_erase.mpr ⟨hcb, hc⟩)]
      exact h.bundle c hc

theorem Core.truncate {s : PayloadSpace} {H : Finset ℕ} {P : List (ℕ × ℤ)} (h : Core s H P) {b : ℕ}
    (hb : (s.bundles b).freed = false) (n : UInt64) (st : StoreCounters) :
    Core ((s.withStore st).setLength b n) H P :=
  Core.setLength (s := s.withStore st) ⟨h.holds, h.sane, h.inDb,
    fun p hp => (h.waiting p hp).congr rfl rfl, h.waits, h.nodup, h.updating⟩ (h.not_waiting hb) n

/-- What the reservation for the inner bundle leaves of the outer one. -/
theorem reserveNew_frame (s : PayloadSpace) {outer inner : ℕ} (hne : outer ≠ inner) (n : UInt64) :
    ((s.setLength inner n).reservePayloadSpace inner).bundles outer = s.bundles outer ∧
      ((s.setLength inner n).reservePayloadSpace inner).length outer = s.length outer ∧
      ((s.setLength inner n).reservePayloadSpace inner).store.exactDiskSize =
        s.store.exactDiskSize := by
  have hlen : (s.setLength inner n).length outer = s.length outer := Function.update_of_ne hne ..
  unfold reservePayloadSpace
  split_ifs
  · exact ⟨rfl, hlen, rfl⟩
  · exact ⟨setBundle_ne _ _ hne, hlen, exactDiskSize_congr (by simp [setBundle, setLength])⟩

theorem Inv.extractBundle {s : PayloadSpace} {H : Finset ℕ} (h : Inv s H s.waitingList)
    {outer inner : ℕ} (hinner : s.bundles inner = {}) (hfreed : (s.bundles outer).freed = false)
    (hlen : 0 < s.length outer) (hreserved : (s.bundles outer).payloadSpaceReserved = true)
    (hdisk : s.store.exactDiskSize (s.length outer) =
      s.store.exactDiskSize (s.length outer - 1) + s.store.exactDiskSize 1) {n : UInt64}
    (hroom : s.store.Room n) :
    ∃ t H', s.extractBundle outer inner n true = .ok t ∧ Inv t H' t.waitingList := by
  have hne : outer ≠ inner := by
    rintro rfl
    simp [hinner] at hreserved
  obtain ⟨H', hinv⟩ := h.reserveNew hinner hroom
  obtain ⟨hbundle, hlength, hblock⟩ := s.reserveNew_frame hne n
  set u := (s.setLength inner n).reservePayloadSpace inner
  have hmem : outer ∈ H' := by
    rw [hinv.holds, Holds, hbundle]
    exact ⟨hreserved, h.gone_eq_false hfreed⟩
  rw [← hlength] at hlen
  rw [← hlength, ← hblock] at hdisk
  obtain ⟨hrel, hbooks⟩ := hinv.books.truncate hmem hlen hdisk
  have hcore := hinv.toCore.truncate (by rw [hbundle]; exact hfreed) 1
    (u.store.uncharge (u.length outer - 1))
  refine ⟨_, H', ?_, hcore, hbooks⟩
  rw [PayloadSpace.extractBundle, if_pos rfl, ← hlength, hrel]
  rfl

/-! ## Runs -/

/-- What the callers see to: a new bundle was not used before, and the payload that was read has at
least one byte and is that of a bundle which was not freed. -/
def BibeLegal (s : PayloadSpace) : BibeOp → Prop
  | .storage op => Legal s op
  | .encapsulate b _ => s.bundles b = {}
  | .extract outer inner _ valid => valid = true →
      s.bundles inner = {} ∧ (s.bundles outer).freed = false ∧ 0 < s.length outer

/-- The thread is not told to stop right after it has reserved space, and the payload that is extracted
has its space reserved and fills its blocks. -/
def Fills (s : PayloadSpace) : BibeOp → Prop
  | .storage op => NotEmpty s op
  | .encapsulate _ e => e.stopAfter = true → e.hasBlocks = false ∨ e.stopBefore = true ∨
      (s.tryReservePayloadSpace (.ofNat e.maxTotalLen)).isNone
  | .extract outer _ _ valid => valid = true → (s.bundles outer).payloadSpaceReserved = true ∧
      s.store.blockSize.toNat ∣ (s.length outer).toNat ∧ 1 < s.store.blockSize.toNat

/-- No sum of sizes leaves 64 bits. -/
def BibeNoWrap (s : PayloadSpace) : BibeOp → Prop
  | .storage op => NoWrap s op
  | .encapsulate _ e => e.maxTotalLen < 2 ^ 64 ∧ s.store.Room (.ofNat e.maxTotalLen) ∧
      ((s.store.tryReservePayloadSpace (.ofNat e.maxTotalLen)).1 = true →
        (s.store.tryReservePayloadSpace (.ofNat e.maxTotalLen)).2.Room (.ofNat e.payloadLen))
  | .extract _ _ innerLen valid => valid = true → s.store.Room innerLen

instance (s : PayloadSpace) : ∀ op, Decidable (BibeLegal s op)
  | .storage _ | .encapsulate _ _ | .extract _ _ _ _ => by unfold BibeLegal; infer_instance

instance (s : PayloadSpace) : ∀ op, Decidable (Fills s op)
  | .storage _ | .encapsulate _ _ | .extract _ _ _ _ => by unfold Fills; infer_instance

instance (s : PayloadSpace) : ∀ op, Decidable (BibeNoWrap s op)
  | .storage _ | .encapsulate _ _ | .extract _ _ _ _ => by unfold BibeNoWrap; infer_instance

theorem Inv.bibeStep {s : PayloadSpace} {H : Finset ℕ} (h : Inv s H s.waitingList) {op : BibeOp}
    (hlegal : BibeLegal s op) (hfills : Fills s op) (hwrap : BibeNoWrap s op) :
    ∃ t, s.bibeStep op = .ok t ∧ ∃ H', Inv t H' t.waitingList := by
  cases op with
  | storage op => exact h.step hlegal hfills hwrap
  | encapsulate b e =>
    obtain ⟨t, H', ht, hinv⟩ := h.encapsulateBundle hlegal
      (fun hs => (hfills hs).imp_right (Or.imp_right Option.isNone_iff_eq_none.mp)) hwrap.1
      hwrap.2.1 hwrap.2.2
    exact ⟨t, ht, H', hinv⟩
  | extract outer inner n valid =>
    cases valid with
    | false => exact ⟨s, rfl, H, h⟩
    | true =>
      obtain ⟨hinner, hfreed, hlen⟩ := hlegal rfl
      obtain ⟨hreserved, hdvd, hblock⟩ := hfills rfl
      have hsplit := (roundedSize_split_iff (by omega) (UInt64.lt_iff_toNat_lt.mp hlen)).mpr
        ⟨hdvd, hblock⟩
      rw [← toNat_sub_one hlen] at hsplit
      obtain ⟨t, H', ht, hinv⟩ := h.extractBundle hinner hfreed hlen hreserved hsplit (hwrap rfl)
      exact ⟨t, ht, H', hinv⟩

/-- The books are exact and no assertion fails in every run that meets the condition. -/
theorem bibe_run (blockSize payloadQuota : UInt64) (hblock : 0 < blockSize) (length : ℕ → UInt64)
    (ops : List BibeOp)
    (hops : Meets bibeStep (fun s op => BibeLegal s op ∧ Fills s op ∧ BibeNoWrap s op)
      (init blockSize payloadQuota hblock length) ops) :
    ∃ s, run bibeStep (init blockSize payloadQuota hblock length) ops = .ok s ∧ Exact s ∧
      ((∀ b, ¬ Holds s b) → s.temps = [] → s.store.totalSize = 0 ∧ s.store.totalDiskSize = 0) := by
  obtain ⟨s, hs, H, hinv⟩ := run_invariant (fun s _ => ∃ H, Inv s H s.waitingList)
    (fun s _ op h hop => h.elim fun H hinv => hinv.bibeStep hop.1 hop.2.1 hop.2.2)
    ⟨∅, inv_initial blockSize payloadQuota hblock length⟩ hops
  have hexact : Exact s := ⟨H, hinv.holds, hinv.books.exact⟩
  exact ⟨s, hs, hexact, hexact.empty⟩

/-- A bundle is encapsulated, another one that fills two blocks is extracted, and all are freed. -/
theorem bibe_run_blocks :
    ∃ s, run bibeStep (init 4096 100000 (by decide) fun _ => 8192)
      [.encapsulate 0 { isBpv6 := true, formattedLen := 5000 }, .storage (.accept 1 0),
        .extract 1 2 8000 true, .storage (.addUpdate 2), .storage (.free 1), .storage .handleEvent,
        .storage .updateDatabase, .storage (.free 0), .storage (.free 2), .storage .handleEvent,
        .storage .updateDatabase] = .ok s ∧ Exact s ∧
      ((∀ b, ¬ Holds s b) → s.temps = [] → s.store.totalSize = 0 ∧ s.store.totalDiskSize = 0) :=
  bibe_run _ _ _ _ _ (by decide +kernel)

/-- The outer payload does not fill its block, so that its byte gives back a block of its own. -/
theorem part_of_block_extracted :
    Meets bibeStep BibeLegal { length := fun _ => 100 }
      [.storage (.accept 0 0), .extract 0 1 50 true, .storage (.free 1), .storage (.free 0)] ∧
    ¬ ∃ s, run bibeStep { length := fun _ => 100 }
      [.storage (.accept 0 0), .extract 0 1 50 true, .storage (.free 1), .storage (.free 0)] = .ok s ∧
      Exact s ∧ ((∀ b, ¬ Holds s b) → s.temps = [] →
        s.store.totalSize = 0 ∧ s.store.totalDiskSize = 0) := by
  have hfails : (run bibeStep { length := fun _ => 100 } [.storage (.accept 0 0), .extract 0 1 50 true,
      .storage (.free 1), .storage (.free 0)]).isOk = false := by
    decide +kernel
  refine ⟨by decide +kernel, ?_⟩
  rintro ⟨s, hs, -⟩
  rw [hs] at hfails
  cases hfails

-- told to stop right after it has reserved space, the thread keeps it
example : (run bibeStep { length := fun _ => 0 }
    [.encapsulate 0 { isBpv6 := false, formattedLen := 100, stopAfter := true }]).toOption.map
      (fun s => (s.store.totalSize, s.store.totalDiskSize, s.temps)) = some (124, 4096, []) := by
  decide +kernel

end PayloadSpace

end Dtnme.Bundling
