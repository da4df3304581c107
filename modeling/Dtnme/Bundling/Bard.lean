import Dtnme.Library.OrdMap
import Dtnme.Library.Strtoull
import Dtnme.Library.Tally
import Dtnme.Library.Transition
import Dtnme.Library.Word
import Dtnme.Bundling.BlockInfo

/-! # The restaging daemon

`BundleArchitecturalRestagingDaemon` counts what is reserved and in use of the storage for the bundles
of a source or of a destination, and a bundle records the amounts it was counted with. A record of
`usage_map_` is the one of `quota_map_` if the key has a quota. Notifications, reloads and rescans are
left out: none of them changes what is counted here. The operations are executed one at a time.
-/

namespace Dtnme.Bundling
open Library

namespace Bard

inductive QuotaType
  | undefined
  | dst
  | src
  deriving DecidableEq, Repr

inductive NamingScheme
  | undefined
  | ipn
  | dtn
  | imc
  deriving DecidableEq, Repr

/-! ## Keys -/

/-- A C string ends at its first NUL. -/
def cString (s : String) : List Char := s.toList.takeWhile (· ≠ '\x00')

/-- `make_key` writes into 256 bytes, with names as C strings in 20 columns. -/
def makeKey (quotaType : QuotaType) (scheme : NamingScheme) (nodename : String) : String :=
  let srcDst := if quotaType = .src then "src" else "dst"
  let schemeStr := match scheme with
    | .undefined => "unk"
    | .ipn => "ipn"
    | .dtn => "dtn"
    | .imc => "imc"
  let name := cString nodename
  let name := if scheme = .dtn then name.rightpad 20 ' ' else name.leftpad 20 ' '
  String.ofList (((srcDst ++ "_" ++ schemeStr ++ "_").toList ++ name).take 255)

/-- What a key uses of an endpoint id. -/
structure Endpoint where
  scheme : NamingScheme
  nodeNum : ℕ := 0
  ssp : String := ""
  deriving DecidableEq, Repr

/-- Ids of unknown schemes have the keys of DTN names. -/
def makeBardNodeStorageUsageKey (quotaType : QuotaType) (eid : Endpoint) : String :=
  match eid.scheme with
  | .ipn => makeKey quotaType .ipn (toString eid.nodeNum)
  | .imc => makeKey quotaType .imc (toString eid.nodeNum)
  | _ => makeKey quotaType .dtn eid.ssp

/-- The check of a command for a quota. -/
def validQuota (quotaType : QuotaType) (scheme : NamingScheme) (nodename : String) : Bool :=
  (quotaType = .dst || quotaType = .src) &&
    match scheme with
    | .ipn | .imc =>
      nodename.length ≠ 0 &&
        (Strtoull.strtoull Char.toNat 0 (cString nodename)).2 = (cString nodename).length
    | .dtn => true
    | .undefined => false

/-! ## Records -/

/-- The counters of a record that bundles are counted in. -/
inductive Account
  | reservedInternal
  | reservedExternal
  | inuseInternal
  deriving DecidableEq, Repr

instance : Fintype Account :=
  ⟨{.reservedInternal, .reservedExternal, .inuseInternal}, fun a => by cases a <;> decide⟩

/-- Bundles and bytes that are allowed, zero for any number. -/
structure Quota where
  internal : Tally := {}
  refuseBundle : Bool := false
  restageLinkName : String := ""
  autoReload : Bool := false
  external : Tally := {}
  deriving DecidableEq, Repr

def Quota.hasQuota (q : Quota) : Bool := q.internal.total ≠ 0 || q.internal.count ≠ 0

/-- `BARDNodeStorageUsage`. -/
structure Usage where
  tally : Account → Tally := fun _ => {}
  inuseExternal : Tally := {}
  quota : Quota := {}
  quotaInDatastore : Bool := false

namespace Usage

def committedInternal (u : Usage) : Tally :=
  ⟨u64 ((u.tally .inuseInternal).count + (u.tally .reservedInternal).count),
    u64 ((u.tally .inuseInternal).total + (u.tally .reservedInternal).total)⟩

def committedExternal (u : Usage) : Tally :=
  ⟨u64 (u.inuseExternal.count + (u.tally .reservedExternal).count),
    u64 (u.inuseExternal.total + (u.tally .reservedExternal).total)⟩

end Usage

/-- Whether one more bundle can be committed; what is reserved for it is committed already. -/
def accepts (quota committed : Tally) (reserved payloadLen : ℕ) : Bool :=
  (quota.count = 0 ||
    u64 ((if 0 < reserved then u64Sub committed.count 1 else committed.count) + 1) ≤ quota.count) &&
  (quota.total = 0 || u64 (u64Sub committed.total reserved + payloadLen) ≤ quota.total)

/-- `RestageCLStatus`; a link has a name. -/
structure RestageLink where
  name : String
  named : name ≠ "" := by decide
  partOfPool : Bool := true
  online : Bool := true
  deriving DecidableEq, Repr

/-- What does not change: the bundles, and the parameters of the daemon. -/
structure Site where
  blockSize : ℕ := 4096
  blockSize_pos : 0 < blockSize := by decide
  payloadLength : ℕ → ℕ
  source : ℕ → Endpoint
  dest : ℕ → Endpoint
  treatUnknownLinkAsPooled : Bool := true

namespace Site

/-- The amount that a bundle is counted with, in whole blocks. -/
def payloadLen (e : Site) (b : ℕ) : ℕ :=
  u64 (e.blockSize * (u64 (e.payloadLength b + e.blockSize) / e.blockSize))

/-- The key of a bundle by its source or by its destination. -/
def key (e : Site) (p : ℕ × Bool) : String :=
  if p.2 then makeBardNodeStorageUsageKey .src (e.source p.1)
  else makeBardNodeStorageUsageKey .dst (e.dest p.1)

/-- `find_restage_link_in_good_state`: the link to use. -/
def findRestageLinkInGoodState (e : Site) (links : List RestageLink) (linkName : String) :
    Option String :=
  let preferred := links.find? (·.name = linkName)
  let pooled := match preferred with
    | some l => l.partOfPool
    | none => e.treatUnknownLinkAsPooled
  if preferred.any (·.online) then some linkName
  else if pooled then (links.find? (fun l => l.partOfPool && l.online)).map (·.name)
  else none

end Site

end Bard

/-- The daemon, with its records on a heap, and what bundles record by source and by destination. -/
structure Bard where
  quotaMap : OrdMap String ℕ := .empty
  usageMap : OrdMap String ℕ := .empty
  usages : ℕ → Bard.Usage := fun _ => {}
  next : ℕ := 0
  started : Bool := false
  amount : Bard.Account → ℕ × Bool → ℕ := fun _ _ => 0
  restageBySrc : ℕ → Bool := fun _ => false
  restageLinkName : ℕ → String := fun _ => ""

namespace Bard

/-! ## Counting -/

def setUsage (s : Bard) (r : ℕ) (u : Usage) : Bard :=
  { s with usages := Function.update s.usages r u }

/-- A counter of a record, and the amount that a bundle records for it. -/
def setAccount (s : Bard) (r : ℕ) (a : Account) (p : ℕ × Bool) (t : Tally) (n : ℕ) : Bard :=
  { s.setUsage r { s.usages r with tally := Function.update (s.usages r).tally a t } with
    amount := Function.update s.amount a (Function.update (s.amount a) p n) }

/-- A new record of a key in `usage_map_`. -/
def newRecord (s : Bard) (key : String) (u : Usage) : Bard :=
  { s.setUsage s.next u with
    usageMap := s.usageMap.insert key s.next
    next := s.next + 1 }

/-- The record of a key in `usage_map_`, made if there is none. -/
def findOrCreate (s : Bard) (key : String) : Bard × ℕ :=
  match s.usageMap.find? key with
  | some r => (s, r)
  | none => (s.newRecord key {}, s.next)

/-- Count a bundle in. -/
def charge (s : Bard) (r : ℕ) (a : Account) (p : ℕ × Bool) (n : ℕ) : Bard :=
  let t := (s.usages r).tally a
  s.setAccount r a p ⟨u64 (t.count + 1), u64 (t.total + n)⟩ n

/-- Reserve space, unless it is reserved for the bundle. -/
def reserve (s : Bard) (r : ℕ) (a : Account) (p : ℕ × Bool) (n : ℕ) : Bard :=
  if s.amount a p ≠ n then s.charge r a p n else s

def reversed (s : Bard) (r : ℕ) (a : Account) (p : ℕ × Bool) : Bard :=
  let t := (s.usages r).tally a
  s.setAccount r a p ⟨u64Sub t.count 1, u64Sub t.total (s.amount a p)⟩ 0

/-- Reverse out what was counted. -/
def reverse (s : Bard) (r : ℕ) (a : Account) (p : ℕ × Bool) : Except Fault Bard :=
  if 0 < s.amount a p then do
    require (1 ≤ ((s.usages r).tally a).count)
    require (s.amount a p ≤ ((s.usages r).tally a).total)
    pure (s.reversed r a p)
  else pure s

def clearRestageLinkName (s : Bard) (b : ℕ) : Bard :=
  { s with restageLinkName := Function.update s.restageLinkName b "" }

section
variable (e : Site)

/-! ## Queries -/

/-- Whether the record of a quota lets a bundle into internal storage. -/
def acceptsInternal (s : Bard) (r : ℕ) (p : ℕ × Bool) : Bool :=
  !(s.usages r).quota.hasQuota ||
    accepts (s.usages r).quota.internal (s.usages r).committedInternal
      (s.amount .reservedInternal p) (e.payloadLen p.1)

def queryAcceptBundleIntoInternalStorage (s : Bard) (p : ℕ × Bool) (reserveSpace : Bool) :
    Bard × Bool :=
  match s.quotaMap.find? (e.key p) with
  | some r =>
    let okay := s.acceptsInternal e r p
    (if okay && reserveSpace then s.reserve r .reservedInternal p (e.payloadLen p.1) else s, okay)
  | none =>
    -- without a quota the space is reserved in any case
    let (s, r) := s.findOrCreate (e.key p)
    (s.reserve r .reservedInternal p (e.payloadLen p.1), true)

/-- The link for a bundle that external storage has room for. -/
def acceptsExternal (s : Bard) (links : List RestageLink) (r : ℕ) (p : ℕ × Bool) : Option String :=
  let u := s.usages r
  if u.quota.hasQuota && !u.quota.refuseBundle &&
      accepts u.quota.external u.committedExternal (s.amount .reservedExternal p)
        (e.payloadLen p.1) then
    e.findRestageLinkInGoodState links u.quota.restageLinkName
  else none

def setRestage (s : Bard) (p : ℕ × Bool) (linkName : String) : Bard :=
  { s with
    restageBySrc := Function.update s.restageBySrc p.1 p.2
    restageLinkName := Function.update s.restageLinkName p.1 linkName }

def queryAcceptBundleIntoExternalStorage (s : Bard) (links : List RestageLink) (p : ℕ × Bool) :
    Bard × Bool :=
  match s.quotaMap.find? (e.key p) with
  | some r =>
    match s.acceptsExternal e links r p with
    | some linkName =>
      ((s.reserve r .reservedExternal p (e.payloadLen p.1)).setRestage p linkName, true)
    | none => (s, false)
  | none => (s, false)

/-- Both checks, and the external storage if one of them fails. -/
def queryBoth (s : Bard) (links : List RestageLink) (b : ℕ) (reserveSpace : Bool)
    (next : Bard → Bard × Bool) : Bard × Bool :=
  let (s, byDst) := s.queryAcceptBundleIntoInternalStorage e (b, false) reserveSpace
  let (s, bySrc) := s.queryAcceptBundleIntoInternalStorage e (b, true) reserveSpace
  if !byDst then s.queryAcceptBundleIntoExternalStorage e links (b, false)
  else if !bySrc then s.queryAcceptBundleIntoExternalStorage e links (b, true)
  else next s

/-- The flag to reserve space is false for the second check, too. -/
def queryAcceptBundle (s : Bard) (links : List RestageLink) (b : ℕ) : Bard × Bool :=
  s.queryBoth e links b false fun s => s.queryBoth e links b false fun s => (s, true)

def queryAcceptBundleInternalStorageOnly (s : Bard) (b : ℕ) : Bard × Bool :=
  let (s, byDst) := s.queryAcceptBundleIntoInternalStorage e (b, false) true
  let (s, bySrc) := s.queryAcceptBundleIntoInternalStorage e (b, true) true
  (s, byDst && bySrc)

/-! ## Bundles that were accepted, restaged or deleted -/

/-- `bundle_accepted` by one of the keys. -/
def bundleAcceptedBy (s : Bard) (p : ℕ × Bool) : Except Fault Bard := do
  let (s, r) := s.findOrCreate (e.key p)
  let s ← s.reverse r .reservedInternal p
  let s ← s.reverse r .reservedExternal p
  pure ((s.clearRestageLinkName p.1).charge r .inuseInternal p (e.payloadLen p.1))

def bundleAccepted (s : Bard) (b : ℕ) : Except Fault Bard := do
  let s ← s.bundleAcceptedBy e (b, false)
  s.bundleAcceptedBy e (b, true)

def setInuseExternal (s : Bard) (r : ℕ) (t : Tally) : Bard :=
  s.setUsage r { s.usages r with inuseExternal := t }

def bundleRestagedBy (s : Bard) (p : ℕ × Bool) (diskUsage : ℕ) : Except Fault Bard := do
  let (s, r) := s.findOrCreate (e.key p)
  let s ← s.reverse r .reservedExternal p
  let s := s.clearRestageLinkName p.1
  let t := (s.usages r).inuseExternal
  if s.restageBySrc p.1 = p.2 then
    pure (s.setInuseExternal r ⟨u64 (t.count + 1), u64 (t.total + diskUsage)⟩)
  else pure s

def bundleRestaged (s : Bard) (b diskUsage : ℕ) : Except Fault Bard := do
  let s ← s.bundleRestagedBy e (b, false) diskUsage
  s.bundleRestagedBy e (b, true) diskUsage

/-- The numbers can be out of step after a rescan, so there is no `ASSERT`. -/
def restagedBundleDeleted (s : Bard) (quotaType : QuotaType) (scheme : NamingScheme)
    (nodename : String) (diskUsage : ℕ) : Bard :=
  match s.usageMap.find? (makeKey quotaType scheme nodename) with
  | none => s
  | some r =>
    let t := (s.usages r).inuseExternal
    s.setInuseExternal r
      ⟨if 1 ≤ t.count then t.count - 1 else t.count,
        if diskUsage ≤ t.total then t.total - diskUsage else t.total⟩

def bundleDeletedBy (s : Bard) (p : ℕ × Bool) : Except Fault Bard := do
  let (s, r) := s.findOrCreate (e.key p)
  let s ← s.reverse r .reservedInternal p
  let s ← s.reverse r .reservedExternal p
  (s.clearRestageLinkName p.1).reverse r .inuseInternal p

def bundleDeleted (s : Bard) (b : ℕ) : Except Fault Bard := do
  let s ← s.bundleDeletedBy e (b, false)
  s.bundleDeletedBy e (b, true)

end

/-! ## Quotas -/

/-- The values of a quota, and whether it is stored. -/
def setQuota (s : Bard) (r : ℕ) (q : Quota) (stored : Bool) : Bard :=
  s.setUsage r { s.usages r with quota := q, quotaInDatastore := stored }

/-- The record of a key in `quota_map_`, which is the one of `usage_map_` if there is none. -/
def quotaRecord (s : Bard) (key : String) : Bard × ℕ :=
  match s.quotaMap.find? key with
  | some r => (s, r)
  | none =>
    let (s, r) := s.findOrCreate key
    ({ s with quotaMap := s.quotaMap.insert key r }, r)

/-- The quota is stored if the daemon was started. -/
def bardcmdAddQuota (s : Bard) (quotaType : QuotaType) (scheme : NamingScheme) (nodename : String)
    (q : Quota) : Bard :=
  if validQuota quotaType scheme nodename then
    let (s, r) := s.quotaRecord (makeKey quotaType scheme nodename)
    s.setQuota r q (s.started || (s.usages r).quotaInDatastore)
  else s

def bardcmdUnlimitedQuota (s : Bard) (quotaType : QuotaType) (scheme : NamingScheme)
    (nodename : String) : Bard := s.bardcmdAddQuota quotaType scheme nodename {}

/-- The record stays in `usage_map_`; there is no command for the quota of a DTN name. -/
def bardcmdDeleteQuota (s : Bard) (quotaType : QuotaType) (scheme : NamingScheme)
    (nodename : String) : Bard :=
  if (quotaType = .dst || quotaType = .src) && (scheme = .ipn || scheme = .imc) then
    let key := makeKey quotaType scheme nodename
    match s.quotaMap.find? key with
    | some r =>
      { s.setQuota r {} (!s.started && (s.usages r).quotaInDatastore) with
        quotaMap := s.quotaMap.erase key }
    | none => s
  else s

/-- One quota of the data store. -/
def loadOne (s : Bard) (p : String × Quota) : Except Fault Bard :=
  match s.quotaMap.find? p.1 with
  | some r => do
    require ((s.usages r).quotaInDatastore = false)
    pure (s.setQuota r p.2 true)
  | none =>
    -- a record that `usage_map_` has is replaced
    pure { s.newRecord p.1 { quota := p.2, quotaInDatastore := true } with
      quotaMap := s.quotaMap.insert p.1 s.next }

def loadLoop : List (String × Quota) → Bard → Except Fault Bard
  | [], s => .ok s
  | p :: l, s => do
    let s ← s.loadOne p
    loadLoop l s

/-- All quotas that are not stored yet are stored. -/
def storeAll (s : Bard) : Bard :=
  s.quotaMap.entries.foldl (fun s p => s.setQuota p.2 (s.usages p.2).quota true) s

def loadSavedQuotas (s : Bard) (stored : OrdMap String Quota) : Except Fault Bard := do
  let s ← loadLoop stored.entries s
  pure s.storeAll

/-! ## Steps -/

/-- `load` is what `run` begins with. -/
inductive Op
  | query (b : ℕ) (links : List RestageLink)
  | queryInternalStorageOnly (b : ℕ)
  | accepted (b : ℕ)
  | restaged (b diskUsage : ℕ)
  | restagedBundleDeleted (quotaType : QuotaType) (scheme : NamingScheme) (nodename : String)
      (diskUsage : ℕ)
  | deleted (b : ℕ)
  | addQuota (quotaType : QuotaType) (scheme : NamingScheme) (nodename : String) (q : Quota)
  | unlimitedQuota (quotaType : QuotaType) (scheme : NamingScheme) (nodename : String)
  | deleteQuota (quotaType : QuotaType) (scheme : NamingScheme) (nodename : String)
  | load (stored : OrdMap String Quota)

/-- The bundle of an operation. -/
def Op.bundle? : Op → Option ℕ
  | .query b _ => some b
  | .queryInternalStorageOnly b => some b
  | .accepted b => some b
  | .restaged b _ => some b
  | .deleted b => some b
  | _ => none

def step (e : Site) (s : Bard) : Op → Except Fault Bard
  | .query b links => .ok (s.queryAcceptBundle e links b).1
  | .queryInternalStorageOnly b => .ok (s.queryAcceptBundleInternalStorageOnly e b).1
  | .accepted b => s.bundleAccepted e b
  | .restaged b diskUsage => s.bundleRestaged e b diskUsage
  | .restagedBundleDeleted quotaType scheme nodename diskUsage =>
    .ok (s.restagedBundleDeleted quotaType scheme nodename diskUsage)
  | .deleted b => s.bundleDeleted e b
  | .addQuota quotaType scheme nodename q => .ok (s.bardcmdAddQuota quotaType scheme nodename q)
  | .unlimitedQuota quotaType scheme nodename =>
    .ok (s.bardcmdUnlimitedQuota quotaType scheme nodename)
  | .deleteQuota quotaType scheme nodename => .ok (s.bardcmdDeleteQuota quotaType scheme nodename)
  | .load stored => do
    let s ← s.loadSavedQuotas stored
    pure { s with started := true }

end Bard

end Dtnme.Bundling
