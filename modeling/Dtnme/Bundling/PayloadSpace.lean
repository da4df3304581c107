import Dtnme.Library.OrdMap
import Dtnme.Library.Word
import Dtnme.Bundling.PayloadQuota

/-! # Space for payloads

`BundleStore` counts the bytes of all payloads, and the bytes in whole blocks. Space is reserved by a
convergence layer for data that is still coming in, or for a bundle when it is accepted or goes to
the database, and it is given back when the bundle is freed or deleted from the database. The storage
daemon works through its events later, in batches. Its operations are executed one at a time, those
of the database succeed, and the daemon is not shutting down.
-/

namespace Dtnme.Bundling
open Library

/-- What storage uses of a bundle. A bundle is gone when it was freed and nothing of it waits to be
deleted. -/
structure StoredBundle where
  payloadSpaceReserved : Bool := false
  queuedForDatastore : Bool := false
  inStorageQueue : Bool := false
  inDatastore : Bool := false
  deleting : Bool := false
  freed : Bool := false
  gone : Bool := false
  deriving DecidableEq, Repr

/-- The events of the storage daemon; a size that was negated is that of a bundle which is not in the
database. -/
inductive StoreEvent
  | update (b : ℕ)
  | delete (b : ℕ) (sizeAndFlag : ℤ)
  deriving DecidableEq, Repr

/-- `BundleStore` and `BundleDaemonStorage`. The payloads' lengths do not change; `temps` are the
reservations of convergence layers. -/
structure PayloadSpace where
  store : StoreCounters := {}
  length : ℕ → UInt64
  bundles : ℕ → StoredBundle := fun _ => {}
  temps : List UInt64 := []
  queue : List StoreEvent := []
  addUpdateBundles : OrdMap ℕ ℤ := .empty
  deleteBundles : OrdMap ℕ ℤ := .empty
  db : Finset ℕ := ∅

namespace PayloadSpace

def setBundle (s : PayloadSpace) (b : ℕ) (v : StoredBundle) : PayloadSpace :=
  { s with bundles := Function.update s.bundles b v }

/-! ## The store -/

def reservePayloadSpace (s : PayloadSpace) (b : ℕ) : PayloadSpace :=
  if (s.bundles b).payloadSpaceReserved then s
  else ({ s with store := s.store.reservePayloadSpace (s.length b) }).setBundle b
    { s.bundles b with payloadSpaceReserved := true }

/-- The state with the space reserved, if the quota allows it. -/
def tryReservePayloadSpace (s : PayloadSpace) (durableSize : UInt64) : Option PayloadSpace :=
  if (s.store.tryReservePayloadSpace durableSize).1 then
    some { s with store := (s.store.tryReservePayloadSpace durableSize).2 }
  else none

def releasePayloadSpace (s : PayloadSpace) (durableSize : UInt64) : Except Fault PayloadSpace := do
  let store ← s.store.releasePayloadSpace durableSize
  pure { s with store := store }

/-- `BundleStore::del` by id. -/
def del (s : PayloadSpace) (b : ℕ) (durableSize : UInt64) : Except Fault PayloadSpace :=
  if b ∈ s.db then ({ s with db := s.db.erase b }).releasePayloadSpace durableSize else .ok s

/-- `BundleStore::add`. -/
def add (s : PayloadSpace) (b : ℕ) : PayloadSpace :=
  if b ∈ s.db then s else ({ s with db := insert b s.db }).reservePayloadSpace b

/-! ## Acceptance -/

/-- The attempts to reserve space, as long as it is not reserved. -/
def tryLoop (payloadLen : UInt64) : ℕ → PayloadSpace → UInt64 → PayloadSpace × UInt64
  | 0, s, tmp => (s, tmp)
  | n + 1, s, tmp =>
    if tmp = payloadLen then (s, tmp)
    else
      match s.tryReservePayloadSpace payloadLen with
      | some s => tryLoop payloadLen n s payloadLen
      | none => tryLoop payloadLen n s tmp

def queryAcceptBundleBasedOnQuotas (s : PayloadSpace) (b : ℕ) (amountPreviouslyReserved : UInt64) :
    Except Fault PayloadSpace :=
  if (s.bundles b).payloadSpaceReserved then
    if amountPreviouslyReserved = 0 then .ok s else .error .assertFailed
  else if 0 < amountPreviouslyReserved then
    if s.length b ≤ amountPreviouslyReserved then do
      let s ← (s.reservePayloadSpace b).releasePayloadSpace amountPreviouslyReserved
      pure { s with temps := s.temps.erase amountPreviouslyReserved }
    else .error .assertFailed
  else
    let (s, tmp) := tryLoop (s.length b) 49 s 0
    if tmp = s.length b then (s.reservePayloadSpace b).releasePayloadSpace tmp else .ok s

/-! ## The storage daemon -/

def post (s : PayloadSpace) (e : StoreEvent) : PayloadSpace := { s with queue := s.queue ++ [e] }

def bundleAddUpdate (s : PayloadSpace) (b : ℕ) : PayloadSpace :=
  let s := s.setBundle b { s.bundles b with queuedForDatastore := true }
  if (s.bundles b).inStorageQueue then s
  else
    let s := s.reservePayloadSpace b
    (s.setBundle b { s.bundles b with inStorageQueue := true }).post (.update b)

/-- The size as an `int64_t`. -/
def sizeAndFlag (s : PayloadSpace) (b : ℕ) : ℤ :=
  let size := i64 (s.length b).toNat
  if (s.bundles b).inDatastore then size else i64 (u64OfInt (-size))

def bundleDelete (s : PayloadSpace) (b : ℕ) : PayloadSpace :=
  let s := s.setBundle b { s.bundles b with deleting := true }
  if (s.bundles b).inStorageQueue || (s.bundles b).inDatastore then
    s.post (.delete b (s.sizeAndFlag b))
  else s

/-- An event is noted in one of the two maps. -/
def handleEvent (s : PayloadSpace) : PayloadSpace :=
  match s.queue with
  | [] => s
  | .update b :: queue =>
    { s with
      queue := queue
      addUpdateBundles :=
        if (s.addUpdateBundles.find? b).isSome then s.addUpdateBundles
        else s.addUpdateBundles.insert b 0 }
  | .delete b f :: queue =>
    { s with
      queue := queue
      deleteBundles :=
        if (s.deleteBundles.find? b).isSome then s.deleteBundles else s.deleteBundles.insert b f }

/-- `update_database_bundles`, one bundle to delete. -/
def deleteOne (s : PayloadSpace) (e : ℕ × ℤ) : Except Fault PayloadSpace := do
  let s ← if e.2 < 0 then s.releasePayloadSpace (UInt64.ofNat (u64OfInt (-e.2)))
    else s.del e.1 (UInt64.ofNat (u64OfInt e.2))
  pure ({ s with addUpdateBundles := s.addUpdateBundles.erase e.1 }.setBundle e.1
    { s.bundles e.1 with gone := true })

def deleteLoop : List (ℕ × ℤ) → PayloadSpace → Except Fault PayloadSpace
  | [], s => .ok s
  | e :: l, s => do
    let s ← s.deleteOne e
    deleteLoop l s

/-- One bundle to add or update; a freed bundle is not found. -/
def updateOne (s : PayloadSpace) (b : ℕ) : PayloadSpace :=
  if (s.bundles b).freed then s
  else if (s.bundles b).deleting then s
  else if (s.bundles b).inDatastore then
    s.setBundle b { s.bundles b with inStorageQueue := false }
  else
    let s := (s.setBundle b { s.bundles b with inStorageQueue := false }).add b
    s.setBundle b { s.bundles b with inDatastore := true }

def updateDatabaseBundles (s : PayloadSpace) : Except Fault PayloadSpace := do
  let s ← deleteLoop s.deleteBundles.entries s
  let s := { s with deleteBundles := .empty }
  let s := s.addUpdateBundles.entries.foldl (fun s e => s.updateOne e.1) s
  pure { s with addUpdateBundles := .empty }

/-! ## The end of a bundle -/

/-- `Bundle::del_ref` with one reference left. -/
def free (s : PayloadSpace) (b : ℕ) : Except Fault PayloadSpace :=
  if (s.bundles b).queuedForDatastore then
    let s := s.bundleDelete b
    .ok (s.setBundle b { s.bundles b with
      queuedForDatastore := false
      freed := true
      gone := !((s.bundles b).inStorageQueue || (s.bundles b).inDatastore) })
  else if (s.bundles b).payloadSpaceReserved then do
    let s ← s.releasePayloadSpace (s.length b)
    pure (s.setBundle b { s.bundles b with payloadSpaceReserved := false, freed := true, gone := true })
  else .ok (s.setBundle b { s.bundles b with freed := true, gone := true })

/-- `release_bundle_without_bref_reserved_space`, after which the bundle is deleted. -/
def releaseWithoutBref (s : PayloadSpace) (b : ℕ) : Except Fault PayloadSpace := do
  let s ← if (s.bundles b).payloadSpaceReserved then s.releasePayloadSpace (s.length b) else .ok s
  pure (s.setBundle b { s.bundles b with freed := true, gone := true })

inductive Op
  | reserveTemp (durableSize : UInt64)
  | releaseTemp (durableSize : UInt64)
  | accept (b : ℕ) (amountPreviouslyReserved : UInt64)
  | addUpdate (b : ℕ)
  | handleEvent
  | updateDatabase
  | free (b : ℕ)
  | releaseWithoutBref (b : ℕ)
  deriving DecidableEq

def step (s : PayloadSpace) : Op → Except Fault PayloadSpace
  | .reserveTemp n =>
    match s.tryReservePayloadSpace n with
    | some s => .ok { s with temps := n :: s.temps }
    | none => .ok s
  | .releaseTemp n => do
    let s ← s.releasePayloadSpace n
    pure { s with temps := s.temps.erase n }
  | .accept b n => s.queryAcceptBundleBasedOnQuotas b n
  | .addUpdate b => .ok (s.bundleAddUpdate b)
  | .handleEvent => .ok s.handleEvent
  | .updateDatabase => s.updateDatabaseBundles
  | .free b => s.free b
  | .releaseWithoutBref b => s.releaseWithoutBref b

@[simp] theorem setBundle_self (s : PayloadSpace) (b : ℕ) (v : StoredBundle) :
    (s.setBundle b v).bundles b = v := Function.update_self ..

@[simp] theorem setBundle_ne (s : PayloadSpace) {b c : ℕ} (v : StoredBundle) (h : c ≠ b) :
    (s.setBundle b v).bundles c = s.bundles c := Function.update_of_ne h ..

/-! ## The books -/

/-- The totals are those of a set of bundles and of the reservations of convergence layers. -/
def Books (s : PayloadSpace) (H : Finset ℕ) : Prop :=
  s.store.totalSize.toNat =
    ∑ b ∈ H, (s.length b).toNat + (s.temps.map UInt64.toNat).sum ∧
  s.store.totalDiskSize.toNat =
    ∑ b ∈ H, s.store.exactDiskSize (s.length b) + (s.temps.map s.store.exactDiskSize).sum

/-- The books are exact, and what is in them was rounded without a wrap. -/
structure Ledger (s : PayloadSpace) (H : Finset ℕ) : Prop where
  exact : Books s H
  bundle : ∀ b ∈ H, (s.length b).toNat + s.store.blockSize.toNat < 2 ^ 64
  temp : ∀ n ∈ s.temps, n.toNat + s.store.blockSize.toNat < 2 ^ 64

theorem Ledger.congr {s t : PayloadSpace} {H : Finset ℕ} (h : Ledger s H) (hstore : t.store = s.store)
    (hlen : t.length = s.length) (htemps : t.temps = s.temps) : Ledger t H where
  exact := by
    rw [Books, hstore, hlen, htemps]
    exact h.exact
  bundle := by
    rw [hstore, hlen]
    exact h.bundle
  temp := by
    rw [hstore, htemps]
    exact h.temp

def withStore (s : PayloadSpace) (store : StoreCounters) : PayloadSpace := { s with store := store }

theorem exactDiskSize_congr {st st' : StoreCounters} (h : st'.blockSize.toNat = st.blockSize.toNat) :
    st'.exactDiskSize = st.exactDiskSize := by
  funext n
  rw [StoreCounters.exactDiskSize, StoreCounters.exactDiskSize, h]

theorem Ledger.charge {s : PayloadSpace} {H : Finset ℕ} (h : Ledger s H) {b : ℕ} (hb : b ∉ H)
    (hround : (s.length b).toNat + s.store.blockSize.toNat < 2 ^ 64) {st : StoreCounters}
    (hst : st.Agrees (s.store.numbers.charge (s.length b).toNat)) :
    Ledger (s.withStore st) (insert b H) := by
  obtain ⟨hblock, -, hsize, hdisk⟩ := hst
  have hexact : st.exactDiskSize = s.store.exactDiskSize := exactDiskSize_congr hblock.symm
  refine ⟨⟨?_, ?_⟩, ?_, ?_⟩
  · change st.totalSize.toNat = ∑ c ∈ insert b H, (s.length c).toNat + (s.temps.map UInt64.toNat).sum
    rw [Finset.sum_insert hb, ← hsize, add_assoc, ← h.exact.1, add_comm]
    rfl
  · change st.totalDiskSize.toNat = ∑ c ∈ insert b H, st.exactDiskSize (s.length c) +
      (s.temps.map st.exactDiskSize).sum
    rw [hexact, Finset.sum_insert hb, ← hdisk, add_assoc, ← h.exact.2, add_comm]
    rfl
  · intro c hc
    change (s.length c).toNat + st.blockSize.toNat < 2 ^ 64
    rw [← hblock]
    rcases Finset.mem_insert.mp hc with rfl | hc
    · exact hround
    · exact h.bundle c hc
  · intro n hn
    change n.toNat + st.blockSize.toNat < 2 ^ 64
    rw [← hblock]
    exact h.temp n hn

theorem Ledger.chargeTemp {s : PayloadSpace} {H : Finset ℕ} (h : Ledger s H) {n : UInt64}
    (hround : n.toNat + s.store.blockSize.toNat < 2 ^ 64) {st : StoreCounters}
    (hst : st.Agrees (s.store.numbers.charge n.toNat)) :
    Ledger { s.withStore st with temps := n :: s.temps } H := by
  obtain ⟨hblock, -, hsize, hdisk⟩ := hst
  have hexact : st.exactDiskSize = s.store.exactDiskSize := exactDiskSize_congr hblock.symm
  refine ⟨⟨?_, ?_⟩, ?_, ?_⟩
  · change st.totalSize.toNat = ∑ c ∈ H, (s.length c).toNat + ((n :: s.temps).map UInt64.toNat).sum
    rw [List.map_cons, List.sum_cons, ← hsize, add_left_comm, ← h.exact.1, add_comm]
    rfl
  · change st.totalDiskSize.toNat = ∑ c ∈ H, st.exactDiskSize (s.length c) +
      ((n :: s.temps).map st.exactDiskSize).sum
    rw [hexact, List.map_cons, List.sum_cons, ← hdisk, add_left_comm, ← h.exact.2, add_comm]
    rfl
  · intro c hc
    change (s.length c).toNat + st.blockSize.toNat < 2 ^ 64
    rw [← hblock]
    exact h.bundle c hc
  · intro m hm
    change m.toNat + st.blockSize.toNat < 2 ^ 64
    rw [← hblock]
    rcases List.mem_cons.mp hm with rfl | hm
    · exact hround
    · exact h.temp m hm

/-- What is in the books can be given back. -/
theorem releasePayloadSpace_of {s : PayloadSpace} {n : UInt64}
    (hround : n.toNat + s.store.blockSize.toNat < 2 ^ 64)
    (hsize : n.toNat ≤ s.store.totalSize.toNat)
    (hdisk : s.store.exactDiskSize n ≤ s.store.totalDiskSize.toNat) :
    s.store.releasePayloadSpace n = .ok (s.store.uncharge n) ∧
      (s.store.uncharge n).Agrees (s.store.numbers.uncharge n.toNat) := by
  have hok := s.store.agrees_numbers.releasePayloadSpace hround
  have hnumbers : s.store.numbers.releasePayloadSpace n.toNat =
      .ok (s.store.numbers.uncharge n.toNat) := if_pos ⟨hdisk, hsize⟩
  rw [hnumbers] at hok
  unfold StoreCounters.releasePayloadSpace at *
  split_ifs at hok ⊢
  · exact ⟨rfl, hok⟩
  · exact hok.elim

theorem releasePayloadSpace_eq {s : PayloadSpace} {n : UInt64} {st : StoreCounters}
    (h : s.store.releasePayloadSpace n = .ok st) : s.releasePayloadSpace n = .ok (s.withStore st) := by
  rw [releasePayloadSpace, h]
  rfl

theorem Ledger.release {s : PayloadSpace} {H : Finset ℕ} (h : Ledger s H) {b : ℕ} (hb : b ∈ H) :
    s.store.releasePayloadSpace (s.length b) = .ok (s.store.uncharge (s.length b)) ∧
      Ledger (s.withStore (s.store.uncharge (s.length b))) (H.erase b) := by
  obtain ⟨hsize, hdisk⟩ := h.exact
  rw [← Finset.add_sum_erase H _ hb] at hsize hdisk
  obtain ⟨hok, hblock, -, hsize', hdisk'⟩ :=
    releasePayloadSpace_of (h.bundle b hb) (by omega) (by omega)
  refine ⟨hok, ⟨?_, ?_⟩, fun c hc => h.bundle c (Finset.mem_of_mem_erase hc), h.temp⟩
  · change (s.store.uncharge (s.length b)).totalSize.toNat =
      ∑ c ∈ H.erase b, (s.length c).toNat + (s.temps.map UInt64.toNat).sum
    rw [← hsize']
    change s.store.totalSize.toNat - (s.length b).toNat = _
    omega
  · change (s.store.uncharge (s.length b)).totalDiskSize.toNat =
      ∑ c ∈ H.erase b, s.store.exactDiskSize (s.length c) + (s.temps.map s.store.exactDiskSize).sum
    rw [← hdisk']
    change s.store.totalDiskSize.toNat - s.store.exactDiskSize (s.length b) = _
    omega

theorem Ledger.releaseTemp {s : PayloadSpace} {H : Finset ℕ} (h : Ledger s H) {n : UInt64}
    (hn : n ∈ s.temps) : s.store.releasePayloadSpace n = .ok (s.store.uncharge n) ∧
      Ledger { s.withStore (s.store.uncharge n) with temps := s.temps.erase n } H := by
  obtain ⟨hsize, hdisk⟩ := h.exact
  have hsum : ∀ f : UInt64 → ℕ, (s.temps.map f).sum = f n + ((s.temps.erase n).map f).sum := by
    intro f
    rw [((List.perm_cons_erase hn).map f).sum_eq, List.map_cons, List.sum_cons]
  rw [hsum] at hsize hdisk
  obtain ⟨hok, hblock, -, hsize', hdisk'⟩ :=
    releasePayloadSpace_of (h.temp n hn) (by omega) (by omega)
  refine ⟨hok, ⟨?_, ?_⟩, h.bundle, fun m hm => h.temp m (List.mem_of_mem_erase hm)⟩
  · change (s.store.uncharge n).totalSize.toNat =
      ∑ b ∈ H, (s.length b).toNat + ((s.temps.erase n).map UInt64.toNat).sum
    rw [← hsize']
    change s.store.totalSize.toNat - n.toNat = _
    omega
  · change (s.store.uncharge n).totalDiskSize.toNat =
      ∑ b ∈ H, s.store.exactDiskSize (s.length b) + ((s.temps.erase n).map s.store.exactDiskSize).sum
    rw [← hdisk']
    change s.store.totalDiskSize.toNat - s.store.exactDiskSize n = _
    omega

/-! ## The invariant -/

/-- A bundle that holds space: it was reserved for it, and the bundle is not gone. -/
def Holds (s : PayloadSpace) (b : ℕ) : Prop :=
  (s.bundles b).payloadSpaceReserved = true ∧ (s.bundles b).gone = false

/-- A bundle that is in the database or on its way there has its space reserved, and only a bundle
that was freed is deleted. -/
structure Sane (v : StoredBundle) : Prop where
  gone : v.gone = true → v.freed = true
  deleting : v.deleting = true → v.freed = true
  reserved : v.inDatastore = true → v.payloadSpaceReserved = true
  queued : v.freed = false → v.inStorageQueue = true ∨ v.inDatastore = true →
    v.queuedForDatastore = true
  stored : v.freed = false → v.queuedForDatastore = true →
    v.payloadSpaceReserved = true ∧ (v.inStorageQueue = true ∨ v.inDatastore = true)

/-- A bundle that waits to be deleted, with its size. -/
structure Waiting (s : PayloadSpace) (p : ℕ × ℤ) : Prop where
  freed : (s.bundles p.1).freed = true
  holds : Holds s p.1
  size : p.2 = s.sizeAndFlag p.1
  nonempty : (s.bundles p.1).inDatastore = false → 0 < s.length p.1
  short : (s.length p.1).toNat < 2 ^ 63

/-- Bundles waiting to be added or updated. -/
def Updating (s : PayloadSpace) (b : ℕ) : Prop :=
  (s.addUpdateBundles.find? b).isSome ∨ StoreEvent.update b ∈ s.queue

/-- `H` are the bundles that hold space, and `P` those that wait to be deleted. -/
structure Core (s : PayloadSpace) (H : Finset ℕ) (P : List (ℕ × ℤ)) : Prop where
  holds : ∀ b, b ∈ H ↔ Holds s b
  sane : ∀ b, Sane (s.bundles b)
  inDb : ∀ b, b ∈ s.db ↔ (s.bundles b).inDatastore = true ∧ (s.bundles b).gone = false
  waiting : ∀ p ∈ P, Waiting s p
  waits : ∀ b, (s.bundles b).freed = true → (s.bundles b).gone = false → b ∈ P.map Prod.fst
  nodup : (P.map Prod.fst).Nodup
  updating : ∀ b, Updating s b → (s.bundles b).queuedForDatastore = true ∨ (s.bundles b).freed = true

structure Inv (s : PayloadSpace) (H : Finset ℕ) (P : List (ℕ × ℤ)) : Prop extends Core s H P where
  books : Ledger s H

/-- What an event deletes. -/
def toDelete : StoreEvent → Option (ℕ × ℤ)
  | .delete b f => some (b, f)
  | .update _ => none

/-- What waits to be deleted, as events or noted already. -/
def waitingList (s : PayloadSpace) : List (ℕ × ℤ) :=
  s.queue.filterMap toDelete ++ s.deleteBundles.entries

/-- An empty store. -/
def init (blockSize payloadQuota : UInt64) (hblock : 0 < blockSize) (length : ℕ → UInt64) :
    PayloadSpace :=
  { store := { blockSize := blockSize, payloadQuota := payloadQuota, blockSize_pos := hblock }
    length := length }

theorem inv_initial (blockSize payloadQuota : UInt64) (hblock : 0 < blockSize)
    (length : ℕ → UInt64) : Inv (init blockSize payloadQuota hblock length) ∅ [] where
  books := ⟨⟨rfl, rfl⟩, by simp, by simp [init]⟩
  holds _ := by simp [Holds, init]
  sane _ := ⟨by simp [init], by simp [init], by simp [init], by simp [init], by simp [init]⟩
  inDb _ := by simp [init]
  waiting := by simp
  waits := by simp [init]
  nodup := List.nodup_nil
  updating b h := by simp [Updating, init] at h

theorem Waiting.congr {s t : PayloadSpace} {p : ℕ × ℤ} (h : Waiting s p) (hlen : t.length = s.length)
    (hb : t.bundles p.1 = s.bundles p.1) : Waiting t p := by
  refine ⟨?_, ?_, ?_, ?_, ?_⟩
  · rw [hb]
    exact h.freed
  · rw [Holds, hb]
    exact h.holds
  · rw [sizeAndFlag, hb, hlen]
    exact h.size
  · rw [hb, hlen]
    exact h.nonempty
  · rw [hlen]
    exact h.short

/-- One bundle changes: what has to be said of it. -/
theorem Core.update {s t : PayloadSpace} {H H' : Finset ℕ} {P P' : List (ℕ × ℤ)} (h : Core s H P)
    {b : ℕ} (hlen : t.length = s.length) (hbundles : ∀ c, c ≠ b → t.bundles c = s.bundles c)
    (hsane : Sane (t.bundles b)) (hH : ∀ c, c ≠ b → (c ∈ H' ↔ c ∈ H)) (hHb : b ∈ H' ↔ Holds t b)
    (hdb : ∀ c, c ≠ b → (c ∈ t.db ↔ c ∈ s.db))
    (hdbb : b ∈ t.db ↔ (t.bundles b).inDatastore = true ∧ (t.bundles b).gone = false)
    (hP : ∀ p ∈ P', p.1 ≠ b → p ∈ P) (hPb : ∀ p ∈ P', p.1 = b → Waiting t p)
    (hW : ∀ c, c ≠ b → c ∈ P.map Prod.fst → c ∈ P'.map Prod.fst)
    (hWb : (t.bundles b).freed = true → (t.bundles b).gone = false → b ∈ P'.map Prod.fst)
    (hnodup : (P'.map Prod.fst).Nodup) (hupd : ∀ c, c ≠ b → Updating t c → Updating s c)
    (hupdb : Updating t b → (t.bundles b).queuedForDatastore = true ∨ (t.bundles b).freed = true) :
    Core t H' P' := by
  refine ⟨fun c => ?_, fun c => ?_, fun c => ?_, fun p hp => ?_, fun c => ?_, hnodup, fun c hc => ?_⟩
  · by_cases hc : c = b
    · rw [hc]
      exact hHb
    · rw [hH c hc, h.holds, Holds, Holds, hbundles c hc]
  · by_cases hc : c = b
    · rw [hc]
      exact hsane
    · rw [hbundles c hc]
      exact h.sane c
  · by_cases hc : c = b
    · rw [hc]
      exact hdbb
    · rw [hdb c hc, h.inDb, hbundles c hc]
  · by_cases hpb : p.1 = b
    · exact hPb p hp hpb
    · exact (h.waiting p (hP p hp hpb)).congr hlen (hbundles _ hpb)
  · by_cases hc : c = b
    · rw [hc]
      exact hWb
    · rw [hbundles c hc]
      exact fun hf hg => hW c hc (h.waits c hf hg)
  · by_cases hcb : c = b
    · rw [hcb] at hc ⊢
      exact hupdb hc
    · rw [hbundles c hcb]
      exact h.updating c (hupd c hcb hc)

theorem Core.gone_eq_false {s : PayloadSpace} {H : Finset ℕ} {P : List (ℕ × ℤ)} (h : Core s H P)
    {b : ℕ} (hb : (s.bundles b).freed = false) : (s.bundles b).gone = false := by
  by_contra hg
  have := (h.sane b).gone (by simpa using hg)
  simp [hb] at this

/-- A bundle that was not freed does not wait to be deleted. -/
theorem Core.not_waiting {s : PayloadSpace} {H : Finset ℕ} {P : List (ℕ × ℤ)} (h : Core s H P)
    {b : ℕ} (hb : (s.bundles b).freed = false) : ∀ p ∈ P, p.1 ≠ b := by
  intro p hp he
  have := (h.waiting p hp).freed
  simp [he, hb] at this

/-- A live bundle changes and stays live. -/
theorem Core.live {s t : PayloadSpace} {H H' : Finset ℕ} {P : List (ℕ × ℤ)} (h : Core s H P)
    {b : ℕ} (hb : (s.bundles b).freed = false) (hlen : t.length = s.length)
    (hbundles : ∀ c, c ≠ b → t.bundles c = s.bundles c) (hfreed : (t.bundles b).freed = false)
    (hsane : Sane (t.bundles b)) (hH : ∀ c, c ≠ b → (c ∈ H' ↔ c ∈ H))
    (hHb : b ∈ H' ↔ (t.bundles b).payloadSpaceReserved = true)
    (hdb : ∀ c, c ≠ b → (c ∈ t.db ↔ c ∈ s.db)) (hdbb : b ∈ t.db ↔ (t.bundles b).inDatastore = true)
    (hupd : ∀ c, c ≠ b → Updating t c → Updating s c)
    (hupdb : Updating t b → (t.bundles b).queuedForDatastore = true) : Core t H' P := by
  have hgone : (t.bundles b).gone = false := by
    by_contra hg
    have := hsane.gone (by simpa using hg)
    simp [hfreed] at this
  have hnot := h.not_waiting hb
  refine h.update hlen hbundles hsane hH ?_ hdb ?_ (fun p hp _ => hp)
    (fun p hp he => absurd he (hnot p hp)) (fun c _ hc => hc) (fun hf => by simp [hfreed] at hf)
    h.nodup hupd (fun hu => .inl (hupdb hu))
  · rw [hHb, Holds, hgone]
    simp
  · rw [hdbb, hgone]
    simp

/-- The state with space that the store counts for a bundle. -/
def hold (s : PayloadSpace) (b : ℕ) (store : StoreCounters) : PayloadSpace :=
  (s.withStore store).setBundle b { s.bundles b with payloadSpaceReserved := true }

theorem reservePayloadSpace_of {s : PayloadSpace} {b : ℕ}
    (hr : ¬ (s.bundles b).payloadSpaceReserved = true) :
    s.reservePayloadSpace b = s.hold b (s.store.reservePayloadSpace (s.length b)) := if_neg hr

theorem Inv.hold {s : PayloadSpace} {H : Finset ℕ} {P : List (ℕ × ℤ)} (h : Inv s H P) {b : ℕ}
    (hb : (s.bundles b).freed = false) (hr : ¬ (s.bundles b).payloadSpaceReserved = true)
    (hround : (s.length b).toNat + s.store.blockSize.toNat < 2 ^ 64) {st : StoreCounters}
    (hst : st.Agrees (s.store.numbers.charge (s.length b).toNat)) :
    Inv (s.hold b st) (insert b H) P := by
  have hmem : b ∉ H := fun hm => hr ((h.holds b).mp hm).1
  have hsane := h.sane b
  have hself : (s.hold b st).bundles b = { s.bundles b with payloadSpaceReserved := true } :=
    setBundle_self ..
  refine ⟨h.toCore.live hb rfl (fun c hc => setBundle_ne _ _ hc) ?_ ?_ (fun c hc => ?_) ?_
    (fun c _ => Iff.rfl) ?_ (fun c _ hu => hu) (fun hu => ?_),
    (h.books.charge hmem hround hst).congr rfl rfl rfl⟩
  · rw [hself]
    exact hb
  · rw [hself]
    exact ⟨hsane.gone, hsane.deleting, fun _ => rfl, hsane.queued,
      fun hf hq => ⟨rfl, (hsane.stored hf hq).2⟩⟩
  · simp [hc]
  · rw [hself]
    simp
  · rw [hself]
    change b ∈ s.db ↔ _
    rw [h.inDb, h.gone_eq_false hb]
    simp
  · rw [hself]
    rcases h.updating b hu with hq | hf
    · exact hq
    · simp [hb] at hf

/-- Space is reserved for a live bundle, if it was not before. -/
theorem Inv.reservePayloadSpace {s : PayloadSpace} {H : Finset ℕ} {P : List (ℕ × ℤ)} (h : Inv s H P)
    {b : ℕ} (hb : (s.bundles b).freed = false)
    (hroom : (s.bundles b).payloadSpaceReserved = true ∨ s.store.Room (s.length b)) :
    ∃ H', Inv (s.reservePayloadSpace b) H' P := by
  by_cases hr : (s.bundles b).payloadSpaceReserved = true
  · rw [PayloadSpace.reservePayloadSpace, if_pos hr]
    exact ⟨H, h⟩
  · have hroom := hroom.resolve_left hr
    rw [reservePayloadSpace_of hr]
    exact ⟨insert b H, h.hold hb hr hroom.1.1 (s.store.agrees_numbers.reservePayloadSpace hroom)⟩

/-! ## Each operation keeps it -/

theorem Inv.releaseTemp {s : PayloadSpace} {H : Finset ℕ} {P : List (ℕ × ℤ)} (h : Inv s H P)
    {n : UInt64} (hn : n ∈ s.temps) :
    s.releasePayloadSpace n = .ok (s.withStore (s.store.uncharge n)) ∧
      Inv { s.withStore (s.store.uncharge n) with temps := s.temps.erase n } H P := by
  obtain ⟨hok, hbooks⟩ := h.books.releaseTemp hn
  exact ⟨releasePayloadSpace_eq hok, ⟨h.holds, h.sane, h.inDb,
    fun p hp => (h.waiting p hp).congr rfl rfl, h.waits, h.nodup, h.updating⟩, hbooks⟩

/-- What an attempt to reserve space comes to. -/
theorem tryReservePayloadSpace_of {s : PayloadSpace} {n : UInt64} (hroom : s.store.Room n) :
    s.tryReservePayloadSpace n = none ∨
      (s.store.tryReservePayloadSpace n).1 = true ∧
        s.tryReservePayloadSpace n = some (s.withStore (s.store.tryReservePayloadSpace n).2) ∧
        (s.store.tryReservePayloadSpace n).2.Agrees (s.store.numbers.charge n.toNat) := by
  obtain ⟨hsome, hagrees⟩ := s.store.agrees_numbers.tryReservePayloadSpace hroom
  unfold tryReservePayloadSpace
  split_ifs with hok
  · right
    refine ⟨hok, rfl, hagrees _ ?_⟩
    rw [hok] at hsome
    unfold SpaceNumbers.tryReservePayloadSpace at hsome ⊢
    split_ifs at hsome ⊢
    · cases hsome
    · rfl
  · exact Or.inl rfl

theorem Inv.reserveTemp {s : PayloadSpace} {H : Finset ℕ} {P : List (ℕ × ℤ)} (h : Inv s H P)
    {n : UInt64} (hroom : s.store.Room n) :
    ∃ t, s.step (.reserveTemp n) = .ok t ∧ Inv t H P ∧ t.queue = s.queue ∧
      t.deleteBundles = s.deleteBundles := by
  rcases tryReservePayloadSpace_of hroom with hnone | ⟨-, hsome, hst⟩
  · refine ⟨s, ?_, h, rfl, rfl⟩
    rw [PayloadSpace.step, hnone]
  · have hinv : Inv { s.withStore (s.store.tryReservePayloadSpace n).2 with temps := n :: s.temps }
        H P :=
      ⟨⟨h.holds, h.sane, h.inDb, fun p hp => (h.waiting p hp).congr rfl rfl, h.waits, h.nodup,
        h.updating⟩, h.books.chargeTemp hroom.1.1 hst⟩
    refine ⟨_, ?_, hinv, rfl, rfl⟩
    rw [PayloadSpace.step, hsome]
    rfl

/-- The first attempt decides, as nothing changes between attempts. -/
theorem tryLoop_eq {s : PayloadSpace} {len : UInt64} (hlen : len ≠ 0) (n : ℕ) :
    tryLoop len (n + 1) s 0 = match s.tryReservePayloadSpace len with
      | some t => (t, len)
      | none => (s, 0) := by
  have hdone : ∀ m (t : PayloadSpace), tryLoop len m t len = (t, len) := by
    intro m t
    cases m with
    | zero => rfl
    | succ m => rw [tryLoop, if_pos rfl]
  cases ht : s.tryReservePayloadSpace len with
  | some t =>
    rw [tryLoop, if_neg (Ne.symm hlen), ht]
    exact hdone n t
  | none =>
    have hnone : ∀ m, tryLoop len m s 0 = (s, 0) := by
      intro m
      induction m with
      | zero => rfl
      | succ m ih =>
        rw [tryLoop, if_neg (Ne.symm hlen), ht]
        exact ih
    exact hnone (n + 1)

theorem Agrees.eq_numbers {st : StoreCounters} {p : SpaceNumbers} (h : st.Agrees p) :
    st.numbers = p := by
  obtain ⟨hblock, hquota, hsize, hdisk⟩ := h
  rw [StoreCounters.numbers, ← hblock, ← hquota, ← hsize, ← hdisk]

/-- The space reserved for trial is given back after it is reserved for the bundle. -/
theorem release_reserve {s : PayloadSpace} {b : ℕ} {n : UInt64} {st : StoreCounters}
    (hr : ¬ (s.bundles b).payloadSpaceReserved = true)
    (hround : n.toNat + s.store.blockSize.toNat < 2 ^ 64)
    (hst : st.Agrees (s.store.numbers.charge n.toNat)) (hroom : st.Room (s.length b)) :
    ∃ st', ((s.withStore st).reservePayloadSpace b).releasePayloadSpace n = .ok (s.hold b st') ∧
      st'.Agrees (s.store.numbers.charge (s.length b).toNat) := by
  set st₁ := st.reservePayloadSpace (s.length b) with hst₁
  have hagrees : st₁.numbers = (s.store.numbers.charge n.toNat).charge (s.length b).toNat :=
    Agrees.eq_numbers (hst.reservePayloadSpace hroom)
  have heq : (s.withStore st).reservePayloadSpace b = s.hold b st₁ := reservePayloadSpace_of hr
  have hblock : (s.hold b st₁).store.blockSize.toNat = s.store.blockSize.toNat :=
    congrArg SpaceNumbers.blockSize hagrees
  have hsize : (s.hold b st₁).store.totalSize.toNat =
      s.store.totalSize.toNat + n.toNat + (s.length b).toNat :=
    congrArg SpaceNumbers.totalSize hagrees
  have hdisk : (s.hold b st₁).store.totalDiskSize.toNat =
      s.store.totalDiskSize.toNat + s.store.exactDiskSize n + s.store.exactDiskSize (s.length b) :=
    congrArg SpaceNumbers.totalDiskSize hagrees
  have hexact := exactDiskSize_congr hblock
  obtain ⟨hok, hun⟩ := releasePayloadSpace_of (s := s.hold b st₁) (n := n) (by rw [hblock]; exact hround)
    (by omega) (by rw [hexact]; omega)
  refine ⟨st₁.uncharge n, by rw [heq]; exact releasePayloadSpace_eq hok, ?_⟩
  have hback : ((s.store.numbers.charge n.toNat).charge (s.length b).toNat).uncharge n.toNat =
      s.store.numbers.charge (s.length b).toNat := by
    simp only [SpaceNumbers.charge, SpaceNumbers.uncharge, SpaceNumbers.mk.injEq, true_and]
    omega
  rw [← hback, ← hagrees]
  exact hun

theorem reservePayloadSpace_queue (s : PayloadSpace) (b : ℕ) :
    (s.reservePayloadSpace b).queue = s.queue ∧
      (s.reservePayloadSpace b).deleteBundles = s.deleteBundles ∧
      (s.reservePayloadSpace b).addUpdateBundles = s.addUpdateBundles ∧
      (s.reservePayloadSpace b).temps = s.temps ∧ (s.reservePayloadSpace b).length = s.length := by
  unfold reservePayloadSpace
  split_ifs <;> exact ⟨rfl, rfl, rfl, rfl, rfl⟩

theorem Inv.accept {s : PayloadSpace} {H : Finset ℕ} {P : List (ℕ × ℤ)} (h : Inv s H P) {b : ℕ}
    {n : UInt64} (hb : (s.bundles b).freed = false)
    (hn : n = 0 ∨ ((s.bundles b).payloadSpaceReserved = false ∧ n ∈ s.temps ∧ s.length b ≤ n))
    (hlen : n = 0 → (s.bundles b).payloadSpaceReserved = true ∨ 0 < s.length b)
    (hroom : (s.bundles b).payloadSpaceReserved = true ∨ s.store.Room (s.length b) ∧
      (n = 0 → (s.store.tryReservePayloadSpace (s.length b)).1 = true →
        (s.store.tryReservePayloadSpace (s.length b)).2.Room (s.length b))) :
    ∃ t H', s.queryAcceptBundleBasedOnQuotas b n = .ok t ∧ Inv t H' P ∧ t.queue = s.queue ∧
      t.deleteBundles = s.deleteBundles := by
  by_cases hn0 : n = 0
  · subst hn0
    by_cases hr : (s.bundles b).payloadSpaceReserved = true
    · exact ⟨s, H, by rw [queryAcceptBundleBasedOnQuotas, if_pos hr, if_pos rfl], h, rfl, rfl⟩
    · obtain ⟨hroom, hagain⟩ := hroom.resolve_left hr
      have hpos : s.length b ≠ 0 := by
        rcases hlen rfl with hl | hl
        · exact absurd hl hr
        · exact UInt64.pos_iff_ne_zero.mp hl
      rw [queryAcceptBundleBasedOnQuotas, if_neg hr, if_neg (by simp), tryLoop_eq hpos 48]
      rcases tryReservePayloadSpace_of hroom with hnone | ⟨htry, hsome, hst⟩
      · refine ⟨s, H, ?_, h, rfl, rfl⟩
        rw [hnone]
        exact if_neg (Ne.symm hpos)
      · obtain ⟨st', hok, hst'⟩ := release_reserve hr hroom.1.1 hst (hagain rfl htry)
        refine ⟨_, _, ?_, h.hold hb hr hroom.1.1 hst', rfl, rfl⟩
        rw [hsome]
        exact (if_pos rfl).trans hok
  · obtain ⟨hr, hmem, hle⟩ := hn.resolve_left hn0
    obtain ⟨H', hres⟩ := h.reservePayloadSpace hb (hroom.imp_right And.left)
    obtain ⟨hqueue, hdel, -, htemps, -⟩ := s.reservePayloadSpace_queue b
    obtain ⟨hok, hinv⟩ := hres.releaseTemp (n := n) (by rw [htemps]; exact hmem)
    refine ⟨_, H', ?_, hinv, hqueue, hdel⟩
    rw [queryAcceptBundleBasedOnQuotas, if_neg (by simp [hr]),
      if_pos (UInt64.pos_iff_ne_zero.mpr hn0), if_pos hle]
    simp only [hok, bind, Except.bind]
    rfl

theorem Inv.perm {s : PayloadSpace} {H : Finset ℕ} {P Q : List (ℕ × ℤ)} (h : Inv s H P)
    (hQ : P.Perm Q) : Inv s H Q where
  books := h.books
  holds := h.holds
  sane := h.sane
  inDb := h.inDb
  waiting p hp := h.waiting p (hQ.mem_iff.mpr hp)
  waits b hf hg := (hQ.map _).mem_iff.mp (h.waits b hf hg)
  nodup := (hQ.map _).nodup_iff.mp h.nodup
  updating := h.updating

theorem reservePayloadSpace_self (s : PayloadSpace) (b : ℕ) :
    (s.reservePayloadSpace b).bundles b = { s.bundles b with payloadSpaceReserved := true } := by
  unfold reservePayloadSpace
  by_cases hr : (s.bundles b).payloadSpaceReserved = true
  · rw [if_pos hr, ← hr]
  · rw [if_neg hr, setBundle_self]

theorem setBundle_eq_self {s : PayloadSpace} {b : ℕ} {v : StoredBundle} (h : s.bundles b = v) :
    s.setBundle b v = s := by
  rw [setBundle, ← h, Function.update_eq_self]

/-- A new bundle is marked, its space is reserved, and it is handed to the daemon. -/
theorem bundleAddUpdate_eq {s : PayloadSpace} {b : ℕ} (h : (s.bundles b).inStorageQueue = false) :
    s.bundleAddUpdate b = ((s.reservePayloadSpace b).setBundle b
      { s.bundles b with
        payloadSpaceReserved := true
        queuedForDatastore := true
        inStorageQueue := true }).post (.update b) := by
  by_cases hr : (s.bundles b).payloadSpaceReserved = true
  · simp [bundleAddUpdate, reservePayloadSpace, setBundle, hr, h]
  · simp [bundleAddUpdate, reservePayloadSpace, setBundle, hr, h]

theorem Inv.bundleAddUpdate {s : PayloadSpace} {H : Finset ℕ} {P : List (ℕ × ℤ)} (h : Inv s H P)
    {b : ℕ} (hb : (s.bundles b).freed = false)
    (hroom : (s.bundles b).payloadSpaceReserved = true ∨ s.store.Room (s.length b)) :
    ∃ H', Inv (s.bundleAddUpdate b) H' P ∧
      waitingList (s.bundleAddUpdate b) = waitingList s := by
  by_cases hq : (s.bundles b).inStorageQueue = true
  · have hqueued := (h.sane b).queued hb (.inl hq)
    have heq : s.bundleAddUpdate b = s := by
      have hs := setBundle_eq_self (s := s) (b := b)
        (v := { s.bundles b with queuedForDatastore := true }) (by rw [← hqueued])
      rw [PayloadSpace.bundleAddUpdate, hs, if_pos hq]
    exact ⟨H, by rwa [heq], by rw [heq]⟩
  · have hq' : (s.bundles b).inStorageQueue = false := by simpa using hq
    obtain ⟨H', hr⟩ := h.reservePayloadSpace hb hroom
    obtain ⟨hqueue, hdel, hadd, -, hlen⟩ := s.reservePayloadSpace_queue b
    have hself := s.reservePayloadSpace_self b
    have hfreed : ((s.reservePayloadSpace b).bundles b).freed = false := by rw [hself]; exact hb
    have hsane := hr.sane b
    rw [hself] at hsane
    rw [bundleAddUpdate_eq hq']
    refine ⟨H', ⟨hr.toCore.live hfreed rfl (fun c hc => setBundle_ne _ _ hc) ?_ ?_ (fun c _ => Iff.rfl)
      ?_ (fun c _ => Iff.rfl) ?_ (fun c hc hu => ?_) (fun _ => ?_),
      hr.books.congr rfl rfl rfl⟩, ?_⟩
    · exact (congrArg StoredBundle.freed (setBundle_self ..)).trans hb
    · change Sane ((setBundle _ _ _).bundles b)
      rw [setBundle_self]
      exact ⟨hsane.gone, hsane.deleting, fun _ => rfl, fun _ _ => rfl,
        fun _ _ => ⟨rfl, .inl rfl⟩⟩
    · change b ∈ H' ↔ ((setBundle _ _ _).bundles b).payloadSpaceReserved = true
      rw [setBundle_self, hr.holds, Holds, hself, h.gone_eq_false hb]
      simp
    · change b ∈ (s.reservePayloadSpace b).db ↔ ((setBundle _ _ _).bundles b).inDatastore = true
      rw [setBundle_self, hr.inDb, hself, h.gone_eq_false hb]
      simp
    · rcases hu with hu | hu
      · exact .inl hu
      · change StoreEvent.update c ∈ (s.reservePayloadSpace b).queue ++ [.update b] at hu
        simp only [List.mem_append, List.mem_singleton, StoreEvent.update.injEq, hc, or_false] at hu
        exact .inr hu
    · change ((setBundle _ _ _).bundles b).queuedForDatastore = true
      rw [setBundle_self]
    · change ((s.reservePayloadSpace b).queue ++ [StoreEvent.update b]).filterMap toDelete ++
        (s.reservePayloadSpace b).deleteBundles.entries = waitingList s
      rw [hqueue, hdel, List.filterMap_append, waitingList]
      simp [toDelete]

/-- Nothing that the invariant looks at changes, except for what waits to be updated. -/
theorem Inv.congr {s t : PayloadSpace} {H : Finset ℕ} {P : List (ℕ × ℤ)} (h : Inv s H P)
    (hstore : t.store = s.store) (hlen : t.length = s.length) (htemps : t.temps = s.temps)
    (hbundles : t.bundles = s.bundles) (hdb : t.db = s.db)
    (hupd : ∀ b, Updating t b → Updating s b) : Inv t H P where
  books := h.books.congr hstore hlen htemps
  holds b := by rw [h.holds, Holds, Holds, hbundles]
  sane b := by rw [hbundles]; exact h.sane b
  inDb b := by rw [hdb, hbundles]; exact h.inDb b
  waiting p hp := (h.waiting p hp).congr hlen (by rw [hbundles])
  waits b := by rw [hbundles]; exact h.waits b
  nodup := h.nodup
  updating b hu := by rw [hbundles]; exact h.updating b (hupd b hu)

/-- An event that is noted still waits. -/
theorem Inv.handleEvent {s : PayloadSpace} {H : Finset ℕ} (h : Inv s H s.waitingList) :
    Inv s.handleEvent H s.handleEvent.waitingList := by
  unfold PayloadSpace.handleEvent
  match hq : s.queue with
  | [] => exact h
  | .update b :: queue =>
    have hlist : s.waitingList = ({ s with queue := queue } : PayloadSpace).waitingList := by
      rw [waitingList, waitingList, hq]
      rfl
    rw [hlist] at h
    refine h.congr rfl rfl rfl rfl rfl (fun c hc => ?_)
    rcases hc with hc | hc
    · by_cases hcb : c = b
      · exact .inr (by rw [hq, hcb]; exact List.mem_cons_self)
      · refine .inl ?_
        dsimp only at hc
        split_ifs at hc with hfind
        · exact hc
        · rwa [OrdMap.find?_insert, if_neg hcb] at hc
    · exact .inr (by rw [hq]; exact List.mem_cons_of_mem _ hc)
  | .delete b f :: queue =>
    have hlist : s.waitingList =
        (b, f) :: ({ s with queue := queue } : PayloadSpace).waitingList := by
      rw [waitingList, waitingList, hq]
      rfl
    rw [hlist] at h
    -- no other event deletes the same bundle
    have hnew : s.deleteBundles.find? b = none := by
      refine OrdMap.find?_eq_none_iff.mpr (fun v hv => ?_)
      refine (List.nodup_cons.mp h.nodup).1 (List.mem_map.mpr ⟨(b, v), ?_, rfl⟩)
      exact List.mem_append_right _ hv
    simp only [hnew, Option.isSome_none, Bool.false_eq_true, if_false]
    refine (h.perm ?_).congr rfl rfl rfl rfl rfl (fun c hc => ?_)
    · rw [waitingList, waitingList]
      refine List.perm_middle.symm.trans (List.Perm.append_left _ ?_)
      exact (OrdMap.entries_insert_perm hnew).symm
    · rcases hc with hc | hc
      · exact .inl hc
      · exact .inr (by rw [hq]; exact List.mem_cons_of_mem _ hc)

/-- The state after a bundle was deleted, its space given back. -/
def drop (s : PayloadSpace) (b : ℕ) : PayloadSpace :=
  ({ s.withStore (s.store.uncharge (s.length b)) with
    db := s.db.erase b
    addUpdateBundles := s.addUpdateBundles.erase b }).setBundle b { s.bundles b with gone := true }

theorem Inv.drop {s : PayloadSpace} {H : Finset ℕ} {b : ℕ} {f : ℤ} {P : List (ℕ × ℤ)}
    (h : Inv s H ((b, f) :: P)) : Inv (s.drop b) (H.erase b) P := by
  have hw := h.waiting _ List.mem_cons_self
  have hnodup := List.nodup_cons.mp h.nodup
  have hself : (s.drop b).bundles b = { s.bundles b with gone := true } := setBundle_self ..
  have hsane := h.sane b
  have hnot : ∀ p ∈ P, p.1 ≠ b := fun p hp he => hnodup.1 (List.mem_map.mpr ⟨p, hp, he⟩)
  refine ⟨h.toCore.update rfl (fun c hc => setBundle_ne _ _ hc) ?_ (fun c hc => ?_) ?_ (fun c hc => ?_)
    ?_ (fun p hp _ => List.mem_cons_of_mem _ hp) (fun p hp he => absurd he (hnot p hp))
    (fun c hc hm => ?_) (fun _ hg => ?_) hnodup.2 (fun c hc hu => ?_) (fun _ => .inr ?_), ?_⟩
  · rw [hself]
    exact ⟨fun _ => hw.freed, hsane.deleting, hsane.reserved, hsane.queued, hsane.stored⟩
  · exact Finset.mem_erase.trans (and_iff_right hc)
  · simp [Holds, hself]
  · exact Finset.mem_erase.trans (and_iff_right hc)
  · rw [hself]
    change b ∈ s.db.erase b ↔ _
    simp
  · exact (List.mem_cons.mp hm).resolve_left hc
  · simp [hself] at hg
  · rcases hu with hu | hu
    · refine .inl ?_
      change ((s.addUpdateBundles.erase b).find? c).isSome = true at hu
      rwa [OrdMap.find?_erase, if_neg hc] at hu
    · exact .inr hu
  · rw [hself]
    exact hw.freed
  · exact (h.books.release ((h.holds b).mpr hw.holds)).2.congr rfl rfl rfl

/-- The size of a short payload survives its way through the event. -/
theorem ofNat_i64 {n : UInt64} (h : n.toNat < 2 ^ 63) :
    i64 n.toNat = n.toNat ∧ i64 (u64OfInt (-(n.toNat : ℤ))) = -(n.toNat : ℤ) ∧
      UInt64.ofNat (u64OfInt n.toNat) = n := by
  refine ⟨i64_of_lt h, ?_, ?_⟩
  · unfold i64 u64 u64OfInt
    split_ifs <;> omega
  · have hword : u64OfInt (n.toNat : ℤ) = n.toNat := by
      unfold u64OfInt
      omega
    rw [hword, UInt64.ofNat_toNat]

theorem Inv.deleteOne {s : PayloadSpace} {H : Finset ℕ} {p : ℕ × ℤ} {P : List (ℕ × ℤ)}
    (h : Inv s H (p :: P)) : s.deleteOne p = .ok (s.drop p.1) := by
  obtain ⟨b, f⟩ := p
  have hw := h.waiting _ List.mem_cons_self
  have hrel := (h.books.release ((h.holds b).mpr hw.holds)).1
  have hsize : f = s.sizeAndFlag b := hw.size
  obtain ⟨hword, hneg, hback⟩ := ofNat_i64 hw.short
  rw [sizeAndFlag] at hsize
  simp only [hword, hneg] at hsize
  by_cases hd : (s.bundles b).inDatastore = true
  · rw [if_pos hd] at hsize
    have hmem : b ∈ s.db := (h.inDb b).mpr ⟨hd, hw.holds.2⟩
    have hdel : s.del b (s.length b) =
        .ok { s.withStore (s.store.uncharge (s.length b)) with db := s.db.erase b } := by
      rw [del, if_pos hmem]
      exact releasePayloadSpace_eq hrel
    rw [PayloadSpace.deleteOne, hsize, if_neg (by simp), hback]
    simp only [hdel, bind, Except.bind]
    rfl
  · rw [if_neg hd] at hsize
    have hpos : 0 < (s.length b).toNat :=
      UInt64.lt_iff_toNat_lt.mp (hw.nonempty (by simpa using hd))
    have hmem : b ∉ s.db := fun hm => hd ((h.inDb b).mp hm).1
    rw [PayloadSpace.deleteOne, hsize, if_pos (by simpa using hpos), neg_neg, hback]
    simp only [releasePayloadSpace_eq hrel, bind, Except.bind]
    rw [PayloadSpace.drop, Finset.erase_eq_of_notMem hmem]
    rfl

theorem Inv.deleteLoop {l Q : List (ℕ × ℤ)} : ∀ {s : PayloadSpace} {H : Finset ℕ},
    Inv s H (l ++ Q) → ∃ t H', PayloadSpace.deleteLoop l s = .ok t ∧ Inv t H' Q ∧
      t.queue = s.queue := by
  induction l with
  | nil => exact fun {s H} h => ⟨s, H, rfl, h, rfl⟩
  | cons p l ih =>
    intro s H h
    obtain ⟨t, H', ht, hinv, hqueue⟩ := ih (h.drop (b := p.1) (f := p.2))
    refine ⟨t, H', ?_, hinv, hqueue⟩
    rw [PayloadSpace.deleteLoop, h.deleteOne]
    exact ht

theorem updateOne_frame (s : PayloadSpace) (b : ℕ) :
    (s.updateOne b).waitingList = s.waitingList ∧
      (s.updateOne b).addUpdateBundles = s.addUpdateBundles := by
  unfold updateOne add reservePayloadSpace
  split_ifs <;> exact ⟨rfl, rfl⟩

/-- A live bundle goes to the database; its space was reserved when it was queued. -/
theorem updateOne_eq {s : PayloadSpace} {H : Finset ℕ} {P : List (ℕ × ℤ)} (h : Inv s H P) {b : ℕ}
    (hf : (s.bundles b).freed = false) (hq : (s.bundles b).queuedForDatastore = true) :
    s.updateOne b = ({ s with db := insert b s.db }).setBundle b
      { s.bundles b with inStorageQueue := false, inDatastore := true } := by
  have hsane := h.sane b
  have hdel : ¬(s.bundles b).deleting = true := fun hd => by simp [hsane.deleting hd] at hf
  have hr := (hsane.stored hf hq).1
  rw [updateOne, if_neg (by simp [hf]), if_neg hdel]
  by_cases hd : (s.bundles b).inDatastore = true
  · have hmem : b ∈ s.db := (h.inDb b).mpr ⟨hd, h.gone_eq_false hf⟩
    rw [if_pos hd, Finset.insert_eq_of_mem hmem, ← hd]
  · have hmem : b ∉ s.db := fun hm => hd ((h.inDb b).mp hm).1
    have hnot : b ∉ (s.setBundle b { s.bundles b with inStorageQueue := false }).db := hmem
    rw [if_neg hd]
    simp only [add, if_neg hnot, reservePayloadSpace]
    simp [setBundle, hr]

theorem Inv.updateOne {s : PayloadSpace} {H : Finset ℕ} {P : List (ℕ × ℤ)} (h : Inv s H P) {b : ℕ}
    (hb : Updating s b) : Inv (s.updateOne b) H P := by
  by_cases hf : (s.bundles b).freed = true
  · rw [PayloadSpace.updateOne, if_pos hf]
    exact h
  · have hf' : (s.bundles b).freed = false := by simpa using hf
    have hq : (s.bundles b).queuedForDatastore = true := (h.updating b hb).resolve_right hf
    have hsane := h.sane b
    rw [updateOne_eq h hf' hq]
    refine ⟨h.toCore.live hf' rfl (fun c hc => setBundle_ne _ _ hc) ?_ ?_ (fun c _ => Iff.rfl) ?_
      (fun c hc => ?_) ?_ (fun c _ hu => hu) (fun _ => ?_), h.books.congr rfl rfl rfl⟩
    · rw [setBundle_self]
      exact hf'
    · rw [setBundle_self]
      exact ⟨hsane.gone, hsane.deleting, fun _ => (hsane.stored hf' hq).1, fun _ _ => hq,
        fun _ _ => ⟨(hsane.stored hf' hq).1, .inr rfl⟩⟩
    · rw [setBundle_self, h.holds, Holds, h.gone_eq_false hf']
      simp
    · exact Finset.mem_insert.trans (or_iff_right hc)
    · rw [setBundle_self]
      exact iff_of_true (Finset.mem_insert_self _ _) rfl
    · rw [setBundle_self]
      exact hq

theorem Inv.updateLoop {P : List (ℕ × ℤ)} {H : Finset ℕ} {l : List (ℕ × ℤ)} :
    ∀ {s : PayloadSpace}, Inv s H P → (∀ e ∈ l, (s.addUpdateBundles.find? e.1).isSome) →
      Inv (l.foldl (fun s e => s.updateOne e.1) s) H P ∧
        (l.foldl (fun s e => s.updateOne e.1) s).waitingList = s.waitingList := by
  induction l with
  | nil => exact fun h _ => ⟨h, rfl⟩
  | cons e l ih =>
    intro s h hl
    obtain ⟨hlist, hadd⟩ := s.updateOne_frame e.1
    have hone := h.updateOne (.inl (hl e List.mem_cons_self))
    obtain ⟨hinv, hrest⟩ := ih hone
      (fun e' he' => by rw [hadd]; exact hl e' (List.mem_cons_of_mem _ he'))
    exact ⟨hinv, hrest.trans hlist⟩

theorem Inv.updateDatabaseBundles {s : PayloadSpace} {H : Finset ℕ} (h : Inv s H s.waitingList) :
    ∃ t H', s.updateDatabaseBundles = .ok t ∧ Inv t H' t.waitingList := by
  obtain ⟨t, H', ht, hinv, hqueue⟩ := (h.perm List.perm_append_comm).deleteLoop
  set u : PayloadSpace := { t with deleteBundles := .empty }
  have hlist : u.waitingList = s.queue.filterMap toDelete := by
    rw [waitingList, ← hqueue]
    exact List.append_nil _
  have hu : Inv u H' u.waitingList := by
    rw [hlist]
    exact hinv.congr rfl rfl rfl rfl rfl (fun _ hu => hu)
  obtain ⟨hfold, hfoldList⟩ := hu.updateLoop (l := u.addUpdateBundles.entries) (fun e he => by
    rw [OrdMap.find?_eq_some_iff.mpr he]
    rfl)
  set v := u.addUpdateBundles.entries.foldl (fun s e => s.updateOne e.1) u
  refine ⟨{ v with addUpdateBundles := .empty }, H', ?_, ?_⟩
  · simp only [PayloadSpace.updateDatabaseBundles, ht, bind, Except.bind]
    rfl
  · have hdone : ({ v with addUpdateBundles := .empty } : PayloadSpace).waitingList = u.waitingList :=
      hfoldList
    rw [hdone]
    refine hfold.congr rfl rfl rfl rfl rfl (fun b hb => ?_)
    rcases hb with hb | hb
    · simp at hb
    · exact .inr hb

/-- A bundle that never went to the storage daemon is gone when it is freed. -/
theorem Inv.leave {s : PayloadSpace} {H : Finset ℕ} {P : List (ℕ × ℤ)} (h : Inv s H P) {b : ℕ}
    (hf : (s.bundles b).freed = false) (hq : (s.bundles b).queuedForDatastore = false)
    {v : StoredBundle} (hvf : v.freed = true) (hvg : v.gone = true)
    (hvd : v.inDatastore = (s.bundles b).inDatastore) :
    ∃ t H', (if (s.bundles b).payloadSpaceReserved then s.releasePayloadSpace (s.length b) else .ok s) =
      .ok t ∧ t.bundles b = s.bundles b ∧ Inv (t.setBundle b v) H' P ∧
      t.waitingList = s.waitingList := by
  have hd : (s.bundles b).inDatastore = false := by
    by_contra hd
    have := (h.sane b).queued hf (.inr (by simpa using hd))
    simp [hq] at this
  have hmem : b ∉ s.db := fun hm => by simp [((h.inDb b).mp hm).1] at hd
  have hcore : ∀ t : PayloadSpace, t.length = s.length → t.bundles = s.bundles → t.db = s.db →
      (∀ c, Updating t c → Updating s c) → Core (t.setBundle b v) (H.erase b) P := by
    intro t hlen hbundles hdb hupd
    refine h.toCore.update hlen (fun c hc => ?_) ?_ (fun c hc => ?_) ?_ (fun c _ => by rw [← hdb]; rfl)
      ?_ (fun p hp _ => hp) (fun p hp he => absurd he (h.not_waiting hf p hp)) (fun c _ hc => hc)
      (fun _ hg => ?_) h.nodup (fun c _ hu => hupd c hu) (fun _ => .inr ?_)
    · rw [setBundle_ne _ _ hc, hbundles]
    · rw [setBundle_self]
      exact ⟨fun _ => hvf, fun _ => hvf, fun hd' => by simp [hvd, hd] at hd',
        fun hf' => by simp [hvf] at hf', fun hf' => by simp [hvf] at hf'⟩
    · exact Finset.mem_erase.trans (and_iff_right hc)
    · simp [Holds, hvg]
    · rw [setBundle_self, hvd, hd]
      change b ∈ t.db ↔ _
      simp [hdb, hmem]
    · simp [hvg] at hg
    · rw [setBundle_self]
      exact hvf
  by_cases hr : (s.bundles b).payloadSpaceReserved = true
  · have hH : b ∈ H := (h.holds b).mpr ⟨hr, h.gone_eq_false hf⟩
    obtain ⟨hok, hbooks⟩ := h.books.release hH
    exact ⟨s.withStore (s.store.uncharge (s.length b)), H.erase b,
      by rw [if_pos hr, releasePayloadSpace_eq hok], rfl,
      ⟨hcore _ rfl rfl rfl (fun _ hu => hu), hbooks.congr rfl rfl rfl⟩, rfl⟩
  · have hH : b ∉ H := fun hm => hr ((h.holds b).mp hm).1
    refine ⟨s, H.erase b, if_neg hr, rfl, ⟨hcore s rfl rfl rfl (fun _ hu => hu), ?_⟩, rfl⟩
    rw [Finset.erase_eq_of_notMem hH]
    exact h.books.congr rfl rfl rfl

/-- A bundle that the storage daemon knows waits to be deleted after it is freed. -/
theorem free_queued {s : PayloadSpace} {b : ℕ} (hq : (s.bundles b).queuedForDatastore = true)
    (hs : (s.bundles b).inStorageQueue = true ∨ (s.bundles b).inDatastore = true) :
    s.free b = .ok ((s.post (.delete b (s.sizeAndFlag b))).setBundle b
      { s.bundles b with
        queuedForDatastore := false
        deleting := true
        freed := true
        gone := false }) := by
  have hor : ((s.bundles b).inStorageQueue || (s.bundles b).inDatastore) = true := by simpa using hs
  rw [free, if_pos hq]
  simp [bundleDelete, setBundle, post, sizeAndFlag, hor]

theorem Inv.free {s : PayloadSpace} {H : Finset ℕ} (h : Inv s H s.waitingList) {b : ℕ}
    (hf : (s.bundles b).freed = false)
    (hlen : (s.bundles b).queuedForDatastore = true → (s.bundles b).inDatastore = false →
      0 < s.length b)
    (hshort : (s.bundles b).queuedForDatastore = true → (s.length b).toNat < 2 ^ 63) :
    ∃ t H', s.free b = .ok t ∧ Inv t H' t.waitingList := by
  by_cases hq : (s.bundles b).queuedForDatastore = true
  · obtain ⟨hr, hs⟩ := (h.sane b).stored hf hq
    rw [free_queued hq hs]
    set v : StoredBundle := { s.bundles b with
      queuedForDatastore := false
      deleting := true
      freed := true
      gone := false }
    set t := (s.post (.delete b (s.sizeAndFlag b))).setBundle b v
    have hself : t.bundles b = v := setBundle_self ..
    have hlist : ((b, s.sizeAndFlag b) :: s.waitingList).Perm t.waitingList := by
      have hqueue : t.queue = s.queue ++ [.delete b (s.sizeAndFlag b)] := rfl
      rw [waitingList, waitingList, hqueue, List.filterMap_append, List.append_assoc]
      exact List.perm_middle.symm
    have hcore : Core t H ((b, s.sizeAndFlag b) :: s.waitingList) := by
      refine h.toCore.update rfl (fun c hc => setBundle_ne _ _ hc) ?_ (fun c _ => Iff.rfl) ?_
        (fun c _ => Iff.rfl) ?_ (fun p hp hne => ?_) (fun p hp he => ?_)
        (fun c _ hc => List.mem_cons_of_mem _ hc) (fun _ _ => List.mem_cons_self) ?_
        (fun c _ hu => ?_) (fun _ => .inr ?_)
      · rw [hself]
        exact ⟨fun _ => rfl, fun _ => rfl, (h.sane b).reserved, fun hf' => by simp [v] at hf',
          fun hf' => by simp [v] at hf'⟩
      · rw [h.holds, Holds, Holds, hself, h.gone_eq_false hf]
      · rw [hself]
        change b ∈ s.db ↔ _
        rw [h.inDb, h.gone_eq_false hf]
      · rcases List.mem_cons.mp hp with rfl | hp
        · exact absurd rfl hne
        · exact hp
      · rcases List.mem_cons.mp hp with rfl | hp
        · refine ⟨?_, ?_, ?_, ?_, hshort hq⟩
          · rw [hself]
          · rw [Holds, hself]
            exact ⟨hr, rfl⟩
          · rw [sizeAndFlag, sizeAndFlag, hself]
            rfl
          · rw [hself]
            exact hlen hq
        · exact absurd he (h.not_waiting hf p hp)
      · refine List.nodup_cons.mpr ⟨fun hm => ?_, h.nodup⟩
        obtain ⟨p, hp, he⟩ := List.mem_map.mp hm
        exact h.not_waiting hf p hp he
      · rcases hu with hu | hu
        · exact .inl hu
        · change StoreEvent.update c ∈ s.queue ++ [.delete b (s.sizeAndFlag b)] at hu
          simp only [List.mem_append, List.mem_singleton, reduceCtorEq, or_false] at hu
          exact .inr hu
      · rw [hself]
    exact ⟨t, H, rfl, Inv.perm ⟨hcore, h.books.congr rfl rfl rfl⟩ hlist⟩
  · have hq' : (s.bundles b).queuedForDatastore = false := by simpa using hq
    rw [PayloadSpace.free, if_neg hq]
    by_cases hr : (s.bundles b).payloadSpaceReserved = true
    · obtain ⟨t, H', ht, hb, hinv, hlist⟩ := h.leave hf hq' (v := { s.bundles b with
        payloadSpaceReserved := false, freed := true, gone := true }) rfl rfl rfl
      rw [if_pos hr] at ht
      refine ⟨_, H', ?_, hlist ▸ hinv⟩
      simp only [if_pos hr, ht, bind, Except.bind, hb]
      rfl
    · obtain ⟨t, H', ht, hb, hinv, hlist⟩ := h.leave hf hq' (v := { s.bundles b with
        freed := true, gone := true }) rfl rfl rfl
      rw [if_neg hr, Except.ok.injEq] at ht
      subst ht
      exact ⟨_, H', if_neg hr, hinv⟩

theorem Inv.releaseWithoutBref {s : PayloadSpace} {H : Finset ℕ} (h : Inv s H s.waitingList) {b : ℕ}
    (hf : (s.bundles b).freed = false) (hq : (s.bundles b).queuedForDatastore = false) :
    ∃ t H', s.releaseWithoutBref b = .ok t ∧ Inv t H' t.waitingList := by
  obtain ⟨t, H', ht, hb, hinv, hlist⟩ := h.leave hf hq (v := { s.bundles b with
    freed := true, gone := true }) rfl rfl rfl
  refine ⟨_, H', ?_, hlist ▸ hinv⟩
  unfold PayloadSpace.releaseWithoutBref
  by_cases hr : (s.bundles b).payloadSpaceReserved = true
  · rw [if_pos hr] at ht
    simp only [if_pos hr, ht, bind, Except.bind, hb]
    rfl
  · rw [if_neg hr, Except.ok.injEq] at ht
    rw [if_neg hr, ht]
    rfl

/-! ## Runs -/

/-- What the callers see to: a bundle is not used after it was freed, a convergence layer gives back or
hands over what it has reserved, at least the payload's length, and only a bundle that never went to
the storage daemon is released without a reference. -/
def Legal (s : PayloadSpace) : Op → Prop
  | .releaseTemp n => n ∈ s.temps
  | .accept b n => (s.bundles b).freed = false ∧
      (n = 0 ∨ ((s.bundles b).payloadSpaceReserved = false ∧ n ∈ s.temps ∧ s.length b ≤ n))
  | .addUpdate b => (s.bundles b).freed = false
  | .free b => (s.bundles b).freed = false
  | .releaseWithoutBref b =>
    (s.bundles b).freed = false ∧ (s.bundles b).queuedForDatastore = false
  | _ => True

/-- An empty payload is neither accepted without space reserved for it, nor freed while its bundle is
queued for the database and not in it. -/
def NotEmpty (s : PayloadSpace) : Op → Prop
  | .accept b n => n = 0 → (s.bundles b).payloadSpaceReserved = true ∨ 0 < s.length b
  | .free b => (s.bundles b).queuedForDatastore = true → (s.bundles b).inDatastore = false →
      0 < s.length b
  | _ => True

/-- No sum of sizes leaves 64 bits, also while space is reserved for trial, and a payload that the
storage daemon gives back has a size that an `int64_t` holds. -/
def NoWrap (s : PayloadSpace) : Op → Prop
  | .reserveTemp n => s.store.Room n
  | .accept b n => (s.bundles b).payloadSpaceReserved = true ∨ s.store.Room (s.length b) ∧
      (n = 0 → (s.store.tryReservePayloadSpace (s.length b)).1 = true →
        (s.store.tryReservePayloadSpace (s.length b)).2.Room (s.length b))
  | .addUpdate b => (s.bundles b).payloadSpaceReserved = true ∨ s.store.Room (s.length b)
  | .free b => (s.bundles b).queuedForDatastore = true → (s.length b).toNat < 2 ^ 63
  | _ => True

instance (s : PayloadSpace) : ∀ op, Decidable (Legal s op)
  | .releaseTemp _ | .accept _ _ | .addUpdate _ | .free _ | .releaseWithoutBref _
  | .reserveTemp _ | .handleEvent | .updateDatabase => by unfold Legal; infer_instance

instance (s : PayloadSpace) : ∀ op, Decidable (NotEmpty s op)
  | .accept _ _ | .free _ | .releaseTemp _ | .addUpdate _ | .releaseWithoutBref _
  | .reserveTemp _ | .handleEvent | .updateDatabase => by unfold NotEmpty; infer_instance

instance (s : PayloadSpace) : ∀ op, Decidable (NoWrap s op)
  | .accept _ _ | .free _ | .releaseTemp _ | .addUpdate _ | .releaseWithoutBref _
  | .reserveTemp _ | .handleEvent | .updateDatabase => by unfold NoWrap; infer_instance

/-- The totals are those of the bundles that hold space and of the temporary reservations. -/
def Exact (s : PayloadSpace) : Prop := ∃ H : Finset ℕ, (∀ b, b ∈ H ↔ Holds s b) ∧ Books s H

theorem Inv.step {s : PayloadSpace} {H : Finset ℕ} (h : Inv s H s.waitingList) {op : Op}
    (hlegal : Legal s op) (hempty : NotEmpty s op) (hwrap : NoWrap s op) :
    ∃ t, s.step op = .ok t ∧ ∃ H', Inv t H' t.waitingList := by
  cases op with
  | reserveTemp n =>
    obtain ⟨t, ht, hinv, hqueue, hdel⟩ := h.reserveTemp hwrap
    rw [waitingList, ← hqueue, ← hdel] at hinv
    exact ⟨t, ht, H, hinv⟩
  | releaseTemp n =>
    obtain ⟨hok, hinv⟩ := h.releaseTemp hlegal
    refine ⟨_, ?_, H, hinv⟩
    simp only [PayloadSpace.step, hok, bind, Except.bind]
    rfl
  | accept b n =>
    obtain ⟨t, H', ht, hinv, hqueue, hdel⟩ := h.accept hlegal.1 hlegal.2 hempty hwrap
    rw [waitingList, ← hqueue, ← hdel] at hinv
    exact ⟨t, ht, H', hinv⟩
  | addUpdate b =>
    obtain ⟨H', hinv, hlist⟩ := h.bundleAddUpdate hlegal hwrap
    exact ⟨_, rfl, H', by rwa [hlist]⟩
  | handleEvent => exact ⟨_, rfl, H, h.handleEvent⟩
  | updateDatabase =>
    obtain ⟨t, H', ht, hinv⟩ := h.updateDatabaseBundles
    exact ⟨t, ht, H', hinv⟩
  | free b =>
    obtain ⟨t, H', ht, hinv⟩ := h.free hlegal hempty hwrap
    exact ⟨t, ht, H', hinv⟩
  | releaseWithoutBref b =>
    obtain ⟨t, H', ht, hinv⟩ := h.releaseWithoutBref hlegal.1 hlegal.2
    exact ⟨t, ht, H', hinv⟩

theorem Exact.empty {s : PayloadSpace} (h : Exact s) (hnone : ∀ b, ¬ Holds s b) (ht : s.temps = []) :
    s.store.totalSize = 0 ∧ s.store.totalDiskSize = 0 := by
  obtain ⟨H, hH, hsize, hdisk⟩ := h
  have hempty : H = ∅ := Finset.eq_empty_of_forall_notMem (fun b hb => hnone b ((hH b).mp hb))
  rw [hempty, ht] at hsize hdisk
  exact ⟨UInt64.toNat_inj.mp hsize, UInt64.toNat_inj.mp hdisk⟩

/-- The books are exact and no assertion fails in every run that handles no empty payload on the two
paths that lose track of it, and in which no sum wraps. -/
theorem payloadSpace_run (blockSize payloadQuota : UInt64) (hblock : 0 < blockSize)
    (length : ℕ → UInt64) (ops : List Op)
    (hops : Meets step (fun s op => Legal s op ∧ NotEmpty s op ∧ NoWrap s op)
      (init blockSize payloadQuota hblock length) ops) :
    ∃ s, run step (init blockSize payloadQuota hblock length) ops = .ok s ∧ Exact s ∧
      ((∀ b, ¬ Holds s b) → s.temps = [] → s.store.totalSize = 0 ∧ s.store.totalDiskSize = 0) := by
  obtain ⟨s, hs, H, hinv⟩ := run_invariant (fun s _ => ∃ H, Inv s H s.waitingList)
    (fun s _ op h hop => h.elim fun H hinv => hinv.step hop.1 hop.2.1 hop.2.2)
    ⟨∅, inv_initial blockSize payloadQuota hblock length⟩ hops
  have hexact : Exact s := ⟨H, hinv.holds, hinv.books.exact⟩
  exact ⟨s, hs, hexact, hexact.empty⟩

/-- Two bundles, one of them empty and handed over by a convergence layer, on all paths. -/
theorem payloadSpace_run_two :
    ∃ s, run step (init 4096 20000 (by decide) fun b => if b = 0 then 0 else 5000)
      [.reserveTemp 40, .accept 0 40, .accept 1 0, .addUpdate 0, .handleEvent, .updateDatabase,
        .addUpdate 1, .free 0, .free 1, .handleEvent, .handleEvent, .handleEvent, .updateDatabase] =
        .ok s ∧ Exact s ∧
      ((∀ b, ¬ Holds s b) → s.temps = [] → s.store.totalSize = 0 ∧ s.store.totalDiskSize = 0) :=
  payloadSpace_run _ _ _ _ _ (by decide +kernel)

/-- The block of an empty payload is given back right after it was reserved for the bundle, so that
freeing the bundle fails. -/
theorem empty_payload_freed :
    Meets step Legal { length := fun _ => 0 } [.accept 0 0, .free 0] ∧
    ¬ ∃ s, run step { length := fun _ => 0 } [.accept 0 0, .free 0] = .ok s ∧ Exact s ∧
      ((∀ b, ¬ Holds s b) → s.temps = [] → s.store.totalSize = 0 ∧ s.store.totalDiskSize = 0) := by
  have hfails : (run step { length := fun _ => 0 } [.accept 0 0, .free 0]).isOk = false := by
    decide +kernel
  refine ⟨by decide +kernel, ?_⟩
  rintro ⟨s, hs, -⟩
  rw [hs] at hfails
  cases hfails

-- freed before it reaches the database, an empty payload leaves its block behind
example : (run step { length := fun _ => 0 } [.reserveTemp 1, .accept 0 1, .addUpdate 0, .free 0,
    .handleEvent, .handleEvent, .updateDatabase]).toOption.map
      (fun s => (s.store.totalDiskSize, (s.bundles 0).gone)) = some (4096, true) := by
  decide +kernel

-- a reservation of all 64 bits takes a byte off the total, which the release of a bundle then misses
example : Meets step Legal { length := fun _ => 5000 }
      [.accept 0 0, .reserveTemp 0xffffffffffffffff, .free 0] ∧
    (run step { length := fun _ => 5000 }
      [.accept 0 0, .reserveTemp 0xffffffffffffffff, .free 0]).isOk = false := by
  decide +kernel

end PayloadSpace

end Dtnme.Bundling
