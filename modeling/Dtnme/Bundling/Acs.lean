import Dtnme.Bundling.BlockInfo
import Dtnme.Bundling.CborUtil
import Dtnme.Bundling.Sdnv
import Dtnme.Library.OrdMap

/-! # Aggregate custody signals

Pending custody signals of `BundleDaemonACS`. One addition is planned by
`determine_acs_changes`, may flush the pending signal in between, and is then carried out
by `apply_acs_changes`. Pointers to entries are the keys of the entries. An expiration
timer is left to its event, which names the key and the `pacs_id` it was started for.
-/

namespace Dtnme.Bundling
open Library

structure AcsEntry where
  leftEdge : ℕ
  diffToPrevRightEdge : ℕ
  lengthOfFill : ℕ
  sdnvLength : ℕ
  deriving DecidableEq, Repr

/-- `BD_NULL_EID`. Endpoint ids are pooled, so equal ids are equal strings. -/
def nullEid : String := "dtn:none"

structure PendingAcs where
  pacsId : ℕ := 0
  custodyEid : String := nullEid
  succeeded : Bool := false
  reason : ℕ := 0
  acsPayloadLength : ℕ := 0
  numCustodyIds : ℕ := 0
  acsEntryMap : OrdMap ℕ AcsEntry := .empty
  paramsRevision : ℕ := 0
  acsDelay : ℕ := 0
  acsSize : ℕ := 0
  bpVersion : ℤ := -1

/-! ## Planning an addition -/

/-- `ae_operation_t`. -/
inductive AeOperation
  | noop
  | insertFirstEntry
  | insertEntryAtEnd
  | insertEntry
  | extendEntry
  | prependEntry
  deriving DecidableEq, Repr

/-- The reference parameters of `determine_acs_changes` and its result. -/
structure AcsChanges where
  aeOp : AeOperation := .noop
  delta : ℤ := 0
  entry : Option ℕ := none
  nextEntry : Option ℕ := none
  newEntrySize : ℕ := 0
  newNextSize : ℕ := 0
  newEntryDiff : ℕ := 0
  newNextDiff : ℕ := 0
  deriving DecidableEq, Repr

/-- The custody id is greater than every left edge. -/
def determineAtEnd (pacs : PendingAcs) (custodyId : ℕ) : AcsChanges :=
  match pacs.acsEntryMap.last? with
  | none =>
    let size := encodingLen custodyId + 1
    { aeOp := .insertFirstEntry, delta := size, newEntryDiff := custodyId, newEntrySize := size }
  | some (key, entry) =>
    if custodyId = u64 (entry.leftEdge + entry.lengthOfFill) then
      let size := encodingLen entry.diffToPrevRightEdge + encodingLen (u64 (entry.lengthOfFill + 1))
      { aeOp := .extendEntry, delta := (size : ℤ) - entry.sdnvLength, entry := some key
        newEntrySize := size }
    else
      let diff := u64Sub custodyId (u64 (entry.leftEdge + u64Sub entry.lengthOfFill 1))
      let size := encodingLen diff + 1
      { aeOp := .insertEntryAtEnd, delta := size, newEntryDiff := diff, newEntrySize := size }

/-- The custody id joins the entry found with the one before it; the change is made at once. -/
def fillGap (pacs : PendingAcs) (custodyId key : ℕ) (entry : AcsEntry) :
    Except Fault (PendingAcs × AcsChanges) :=
  match pacs.acsEntryMap.prev? key with
  | none => .error .undefined
  | some (prevKey, prev) =>
    if custodyId ≠ u64 (prev.leftEdge + prev.lengthOfFill) then .error .assertFailed
    else
      let oldSize := entry.sdnvLength + prev.sdnvLength
      let fill := u64 (prev.lengthOfFill + u64 (entry.lengthOfFill + 1))
      let size := encodingLen prev.diffToPrevRightEdge + encodingLen fill
      if oldSize < size then .error .assertFailed
      else .ok (
        { pacs with
          acsEntryMap := (pacs.acsEntryMap.insert prevKey
            { prev with lengthOfFill := fill, sdnvLength := size }).erase key
          numCustodyIds := u32 (pacs.numCustodyIds + 1)
          acsPayloadLength := u32OfInt (pacs.acsPayloadLength + ((size : ℤ) - oldSize)) }, {})

/-- The custody id follows the entry before the one found. -/
def planExtend (pacs : PendingAcs) (custodyId key : ℕ) (next : AcsEntry) :
    Except Fault AcsChanges :=
  match pacs.acsEntryMap.prev? key with
  | none => .error .undefined
  | some (prevKey, prev) =>
    if u64 (prev.leftEdge + prev.lengthOfFill) ≠ custodyId then .error .assertFailed
    else
      let size := encodingLen prev.diffToPrevRightEdge + encodingLen (u64 (prev.lengthOfFill + 1))
      let nextDiff := u64Sub next.diffToPrevRightEdge 1
      let nextSize := encodingLen nextDiff + encodingLen next.lengthOfFill
      .ok
        { aeOp := .extendEntry
          delta := (size : ℤ) + nextSize - (prev.sdnvLength + next.sdnvLength)
          entry := some prevKey, nextEntry := some key, newEntrySize := size
          newNextSize := nextSize, newEntryDiff := prev.diffToPrevRightEdge
          newNextDiff := nextDiff }

/-- The custody id comes right before the entry found, and does not reach the one before it. -/
def planPrepend (key : ℕ) (entry : AcsEntry) : AcsChanges :=
  let diff := u64Sub entry.diffToPrevRightEdge 1
  let size := encodingLen diff + encodingLen (u64 (entry.lengthOfFill + 1))
  { aeOp := .prependEntry, delta := (size : ℤ) - entry.sdnvLength, entry := some key
    newEntrySize := size, newEntryDiff := diff }

/-- The custody id touches neither the entry found nor the one before it. -/
def planInsert (custodyId key : ℕ) (next : AcsEntry) : AcsChanges :=
  let diff := u64Sub next.diffToPrevRightEdge (u64Sub next.leftEdge custodyId)
  let size := encodingLen diff + 1
  let nextDiff := u64Sub next.leftEdge custodyId
  let nextSize := encodingLen nextDiff + encodingLen next.lengthOfFill
  { aeOp := .insertEntry, delta := (size : ℤ) + nextSize - next.sdnvLength, nextEntry := some key
    newEntrySize := size, newNextSize := nextSize, newEntryDiff := diff, newNextDiff := nextDiff }

/-- `determine_acs_changes`. -/
def determineAcsChanges (pacs : PendingAcs) (custodyId : ℕ) :
    Except Fault (PendingAcs × AcsChanges) :=
  match pacs.acsEntryMap.lowerBound? custodyId with
  | none => .ok (pacs, determineAtEnd pacs custodyId)
  | some (key, entry) =>
    if custodyId = entry.leftEdge then .ok (pacs, {})
    else if custodyId = u64Sub entry.leftEdge 1 then
      if entry.diffToPrevRightEdge = 2 ∧ entry.leftEdge ≠ 2 then fillGap pacs custodyId key entry
      else .ok (pacs, planPrepend key entry)
    else if 1 < custodyId ∧
        custodyId = u64 (u64Sub entry.leftEdge entry.diffToPrevRightEdge + 1) then
      (planExtend pacs custodyId key entry).map (fun changes => (pacs, changes))
    else .ok (pacs, planInsert custodyId key entry)

/-! ## Carrying it out -/

/-- `add_acs_entry`: an entry with that left edge would stay. -/
def addAcsEntry (m : OrdMap ℕ AcsEntry) (leftEdge diff sdnvLen : ℕ) : OrdMap ℕ AcsEntry :=
  if (m.find? leftEdge).isSome then m else m.insert leftEdge ⟨leftEdge, diff, 1, sdnvLen⟩

/-- An assignment through a pointer that may be null. -/
def updateEntry (m : OrdMap ℕ AcsEntry) (key : Option ℕ) (f : AcsEntry → AcsEntry) :
    OrdMap ℕ AcsEntry :=
  match key with
  | none => m
  | some k =>
    match m.find? k with
    | none => m
    | some e => m.insert k (f e)

/-- The next entry gets its new difference, if there is a next entry. -/
def updateNext (m : OrdMap ℕ AcsEntry) (ch : AcsChanges) : OrdMap ℕ AcsEntry :=
  updateEntry m ch.nextEntry fun e =>
    { e with diffToPrevRightEdge := ch.newNextDiff, sdnvLength := ch.newNextSize }

/-- The entry that gets a smaller left edge moves in the map. -/
def prependEntry (m : OrdMap ℕ AcsEntry) (ch : AcsChanges) (custodyId : ℕ) : OrdMap ℕ AcsEntry :=
  match ch.entry with
  | none => m
  | some k =>
    match m.find? k with
    | none => m
    | some e => (m.erase k).insert custodyId
        { leftEdge := custodyId, lengthOfFill := u64 (e.lengthOfFill + 1)
          sdnvLength := ch.newEntrySize, diffToPrevRightEdge := ch.newEntryDiff }

/-- The entry map after an operation on a pending signal that is not empty. -/
def applyToMap (m : OrdMap ℕ AcsEntry) (ch : AcsChanges) (custodyId : ℕ) : OrdMap ℕ AcsEntry :=
  match ch.aeOp with
  | .noop => m
  | .insertFirstEntry | .insertEntry | .insertEntryAtEnd =>
    updateNext (addAcsEntry m custodyId ch.newEntryDiff ch.newEntrySize) ch
  | .extendEntry =>
    updateNext (updateEntry m ch.entry fun e =>
      { e with lengthOfFill := u64 (e.lengthOfFill + 1), sdnvLength := ch.newEntrySize }) ch
  | .prependEntry => prependEntry m ch custodyId

/-- `apply_acs_changes`. An empty pending signal starts over with the custody id, whatever was
planned. -/
def applyAcsChanges (pacs : PendingAcs) (ch : AcsChanges) (custodyId : ℕ) :
    Except Fault PendingAcs :=
  if ch.aeOp = .noop then .ok pacs
  else if pacs.acsPayloadLength = 0 then
    if pacs.acsEntryMap.size ≠ 0 then .error .assertFailed
    else
      let size := encodingLen custodyId + 1
      .ok { pacs with
        acsEntryMap := addAcsEntry pacs.acsEntryMap custodyId custodyId size
        acsPayloadLength := size, numCustodyIds := 1 }
  else .ok { pacs with
    acsEntryMap := applyToMap pacs.acsEntryMap ch custodyId
    numCustodyIds := u32 (pacs.numCustodyIds + 1)
    acsPayloadLength := u32OfInt (pacs.acsPayloadLength + ch.delta) }

/-! ## Signals -/

/-- A signal bundle as it is posted. A signal that was not filled in has no destination. -/
structure AcsSignal where
  bpVersion : ℕ
  dest : Option String := none
  succeeded : Bool
  reason : ℕ
  fills : List (ℕ × ℕ) := []
  payload : List UInt8 := []
  deriving DecidableEq

/-- The loop of `create_aggregate_custody_signal`, with the room left in its buffer. -/
def encodeEntries : List AcsEntry → ℕ → ℤ → Except Fault (List UInt8)
  | [], _, _ => .ok []
  | entry :: rest, rightEdge, len =>
    let diff := u64Sub entry.leftEdge rightEdge
    if diff ≠ entry.diffToPrevRightEdge then .error .assertFailed
    else
      match encode diff (u64OfInt len) with
      | none => .error .assertFailed
      | some bytes₁ =>
        let len := len - bytes₁.length
        match encode entry.lengthOfFill (u64OfInt len) with
        | none => .error .assertFailed
        | some bytes₂ =>
          if bytes₁.length + bytes₂.length ≠ entry.sdnvLength then .error .assertFailed
          else
            (encodeEntries rest (u64 (entry.leftEdge + u64Sub entry.lengthOfFill 1))
              (len - bytes₂.length)).map (fun bytes => bytes₁ ++ (bytes₂ ++ bytes))

def fillsOf (m : OrdMap ℕ AcsEntry) : List (ℕ × ℕ) :=
  m.values.map (fun e => (e.leftEdge, e.lengthOfFill))

/-- The pending signal, cleared for reuse. -/
def PendingAcs.clear (pacs : PendingAcs) (pacsId : ℕ) : PendingAcs :=
  { pacs with pacsId, acsPayloadLength := 0, numCustodyIds := 0, acsEntryMap := .empty }

/-- The status byte: success flag and reason code. -/
def statusByte (succeeded : Bool) (reason : ℕ) : UInt8 :=
  UInt8.ofNat ((if succeeded then 0x80 else 0) + reason % 0x80)

/-- `create_aggregate_custody_signal`; `none` stands for the early return on a null custodian. The
length of the signal is an `int`: below zero it asks for a buffer of nearly 2^64 bytes, and below
two it leaves the loop with no end of its buffer. -/
def createAggregateCustodySignal (pacs : PendingAcs) : Except Fault (Option AcsSignal) :=
  let signalLen := i32 (pacs.acsPayloadLength + 2)
  if pacs.custodyEid = nullEid then .ok none
  else if signalLen < 0 then .error .panic
  else if signalLen < 2 then .error .undefined
  else
    (encodeEntries pacs.acsEntryMap.values 0 (signalLen - 2)).map fun bytes =>
      some
        { bpVersion := 6, dest := some pacs.custodyEid, succeeded := pacs.succeeded
          reason := pacs.reason, fills := fillsOf pacs.acsEntryMap
          payload := 0x40 :: statusByte pacs.succeeded pacs.reason :: bytes }

/-- `create_bibe_custody_signal`. Its buffer always has room for what is written. -/
def createBibeCustodySignal (pacs : PendingAcs) : Option AcsSignal :=
  if pacs.custodyEid = nullEid then none
  else some
    { bpVersion := 7, dest := some pacs.custodyEid, succeeded := pacs.succeeded
      reason := pacs.reason, fills := fillsOf pacs.acsEntryMap
      payload := headerBytes .array 2 ++ headerBytes .integer 4 ++ headerBytes .array 2 ++ headerBytes .integer pacs.reason ++
        headerBytes .array pacs.acsEntryMap.size ++ (fillsOf pacs.acsEntryMap).flatMap (fun fill =>
          headerBytes .array 2 ++ headerBytes .integer fill.1 ++ headerBytes .integer fill.2) }

/-- `generate_acs`, also for BIBE: the bundles posted, the pending signal and the `pacs_id` counter.
The bundle goes out even if it was not filled in, and only a filled one clears the pending signal. -/
def generateAcs (pacs : PendingAcs) (nextPacsid : ℕ) :
    Except Fault (List AcsSignal × PendingAcs × ℕ) :=
  if pacs.acsPayloadLength = 0 then .ok ([], pacs, nextPacsid)
  else
    let created := if pacs.bpVersion = 7 then .ok (createBibeCustodySignal pacs)
      else createAggregateCustodySignal pacs
    created.map fun
      | none => ([{ bpVersion := if pacs.bpVersion = 7 then 7 else 6, succeeded := pacs.succeeded
                    reason := pacs.reason }], pacs, nextPacsid)
      | some signal => ([signal], pacs.clear nextPacsid, u32 (nextPacsid + 1))

/-! ## The parser of a received signal -/

/-- `parse_aggregate_custody_signal`, the loop over the entries: `none` is a rejected signal. The
fuel is the number of bytes left. -/
def parseEntries : ℕ → List UInt8 → ℕ → OrdMap ℕ (ℕ × ℕ) → Option (OrdMap ℕ (ℕ × ℕ))
  | 0, _, _, m => some m
  | fuel + 1, bytes, rightEdge, m =>
    if bytes.length = 0 then some m
    else
      match (decode (memOf bytes 0) 0 bytes.length).result with
      | none => none
      | some (diff, n₁) =>
        let bytes := bytes.drop n₁
        match (decode (memOf bytes 0) 0 bytes.length).result with
        | none => none
        | some (fillLen, n₂) =>
          let leftEdge := u64 (rightEdge + diff)
          if leftEdge = 0 then none
          else if u64 (u64Sub (2 ^ 64 - 1) leftEdge + 1) < fillLen then none
          else parseEntries fuel (bytes.drop n₂) (u64 (leftEdge + u64Sub fillLen 1))
            (if (m.find? leftEdge).isSome then m else m.insert leftEdge (leftEdge, fillLen))

/-- What the parser fills in: success flag, reason and the entries by left edge. -/
structure AcsData where
  succeeded : Bool
  reason : ℕ
  entries : OrdMap ℕ (ℕ × ℕ)
  deriving DecidableEq

/-- `parse_aggregate_custody_signal`. -/
def parseAggregateCustodySignal (payload : List UInt8) : Option AcsData :=
  match payload with
  | [] => none
  | admin :: rest =>
    if admin.toNat / 16 ≠ 4 then none
    else
      match rest with
      | [] => none
      | status :: bytes =>
        match parseEntries bytes.length bytes 0 .empty with
        | none => none
        | some m =>
          if m.size = 0 then none
          else some ⟨decide (status.toNat / 0x80 = 1), status.toNat % 0x80, m⟩

/-! ## The daemon -/

/-- The key of a pending signal: custodian, outcome and two hexadecimal digits of the reason. -/
def acsKey (custodyEid : String) (succeeded : Bool) (reason : UInt8) : String :=
  custodyEid ++ ((if succeeded then "~success~" else "~fail~") ++
    String.ofList [Nat.digitChar (reason.toNat / 16), Nat.digitChar (reason.toNat % 16)])

structure ACSRouteParams where
  endpoint : String
  acsDelay : ℕ
  acsSize : ℕ
  deriving DecidableEq, Repr

/-- The daemon, with the bundles that it posted. Endpoint patterns are matched elsewhere. -/
structure BundleDaemonACS where
  pendingAcsMap : OrdMap String PendingAcs := .empty
  acsParamsRevision : ℕ := 1
  acsRouteParamsList : List ACSRouteParams := []
  acsDelay : ℕ := 30
  acsSize : ℕ := 1000
  nextPacsid : ℕ := 0
  posted : List AcsSignal := []

section
variable (eidMatch : String → String → Bool)

/-- The route override with the longest pattern, the first one of these. -/
def bestMatch (eid : String) (l : List ACSRouteParams) : Option ACSRouteParams :=
  l.foldl (fun best arp =>
    if eidMatch arp.endpoint eid then
      match best with
      | none => some arp
      | some b => if b.endpoint.utf8ByteSize < arp.endpoint.utf8ByteSize then some arp else best
    else best) none

/-- `get_acs_params_for_endpoint`: whether the parameters were looked up again, and the pending
signal with them. -/
def getAcsParamsForEndpoint (d : BundleDaemonACS) (pacs : PendingAcs) : Bool × PendingAcs :=
  if pacs.paramsRevision = d.acsParamsRevision then (false, pacs)
  else
    match bestMatch eidMatch pacs.custodyEid d.acsRouteParamsList with
    | some arp => (true, { pacs with paramsRevision := d.acsParamsRevision
                                     acsDelay := arp.acsDelay, acsSize := arp.acsSize })
    | none => (true, { pacs with paramsRevision := d.acsParamsRevision
                                 acsDelay := d.acsDelay, acsSize := d.acsSize })

/-- The size constraint, or a lowered delay. -/
def triggers (pacs : PendingAcs) (delta : ℤ) (changed : Bool) (oldDelay : ℕ) : Bool :=
  (0 < pacs.acsSize && 0 < pacs.acsPayloadLength &&
    pacs.acsSize < u32OfInt (pacs.acsPayloadLength + delta)) ||
  (changed && pacs.acsDelay < oldDelay)

/-- The parameters are looked up, and the pending signal goes out if its new length or its delay
says so. -/
def sendIfTriggered (d : BundleDaemonACS) (pacs : PendingAcs) (delta : ℤ) :
    Except Fault (List AcsSignal × PendingAcs × ℕ) :=
  let (changed, updated) := getAcsParamsForEndpoint eidMatch d pacs
  if triggers updated delta changed pacs.acsDelay then generateAcs updated d.nextPacsid
  else .ok ([], updated, d.nextPacsid)

/-- The part that `handle_add_bundle_to_acs` and `add_bibe_bundle_to_acs` share. -/
def addCustodyId (d : BundleDaemonACS) (key : String) (pacs : PendingAcs) (custodyId : ℕ) :
    Except Fault BundleDaemonACS := do
  let (pacs, changes) ← determineAcsChanges pacs custodyId
  let (signals, pacs, nextPacsid) ← sendIfTriggered eidMatch d pacs changes.delta
  let pacs ← applyAcsChanges pacs changes custodyId
  .ok { d with pendingAcsMap := d.pendingAcsMap.insert key pacs, nextPacsid
               posted := d.posted ++ signals }

/-- The pending signal of a key, or a new one that takes the next `pacs_id`. -/
def pendingFor (d : BundleDaemonACS) (key : String) (fresh : PendingAcs) :
    BundleDaemonACS × PendingAcs :=
  match d.pendingAcsMap.find? key with
  | some pacs => (d, pacs)
  | none => ({ d with nextPacsid := u32 (d.nextPacsid + 1) }, { fresh with pacsId := d.nextPacsid })

/-- `handle_add_bundle_to_acs`. -/
def handleAddBundleToAcs (d : BundleDaemonACS) (custodyEid : String) (succeeded : Bool)
    (reason : UInt8) (custodyId : ℕ) : Except Fault BundleDaemonACS :=
  let key := acsKey custodyEid succeeded reason
  let (d, pacs) := pendingFor d key
    { custodyEid, succeeded, reason := reason.toNat, bpVersion := 6 }
  addCustodyId eidMatch d key pacs custodyId

/-- `add_bibe_bundle_to_acs`. The assignment to `custody_eid()` goes to a copy, so the custodian of a
new pending signal stays null. -/
def addBibeBundleToAcs (d : BundleDaemonACS) (bpVersion : ℤ) (custodyEid : String) (success : Bool)
    (reason : UInt8) (transmissionId : ℕ) : Except Fault BundleDaemonACS :=
  let key := acsKey custodyEid success reason
  let (d, pacs) := pendingFor d key { succeeded := success, reason := reason.toNat, bpVersion }
  addCustodyId eidMatch d key pacs transmissionId

end

/-- `handle_acs_expired`. -/
def handleAcsExpired (d : BundleDaemonACS) (key : String) (pacsId : ℕ) :
    Except Fault BundleDaemonACS :=
  match d.pendingAcsMap.find? key with
  | none => .ok d
  | some pacs =>
    if pacsId ≠ pacs.pacsId then .ok d
    else
      (generateAcs pacs d.nextPacsid).map fun (signals, pacs, nextPacsid) =>
        { d with pendingAcsMap := d.pendingAcsMap.insert key pacs, nextPacsid
                 posted := d.posted ++ signals }

/-- `set_route_acs_params`. -/
def setRouteAcsParams (d : BundleDaemonACS) (arp : ACSRouteParams) : BundleDaemonACS :=
  { d with
    acsRouteParamsList :=
      if d.acsRouteParamsList.any (fun a => a.endpoint = arp.endpoint) then
        d.acsRouteParamsList.map (fun a => if a.endpoint = arp.endpoint then arp else a)
      else d.acsRouteParamsList ++ [arp]
    acsParamsRevision := u32 (d.acsParamsRevision + 1) }

/-- `delete_route_acs_params`. -/
def deleteRouteAcsParams (d : BundleDaemonACS) (endpoint : String) : BundleDaemonACS :=
  { d with
    acsRouteParamsList := d.acsRouteParamsList.eraseP (fun a => a.endpoint = endpoint)
    acsParamsRevision := u32 (d.acsParamsRevision + 1) }

/-- The events of a run. -/
inductive AcsEvent
  | addBundleToAcs (custodyEid : String) (succeeded : Bool) (reason : UInt8) (custodyId : ℕ)
  | addBibeBundleToAcs (bpVersion : ℤ) (custodyEid : String) (success : Bool) (reason : UInt8)
      (transmissionId : ℕ)
  | acsExpired (key : String) (pacsId : ℕ)
  | setRouteAcsParams (arp : ACSRouteParams)
  | deleteRouteAcsParams (endpoint : String)
  | setDefaultParams (acsDelay acsSize : ℕ)
  deriving DecidableEq

/-- One event. The defaults are set by a command, without a new revision. -/
def acsStep (eidMatch : String → String → Bool) (d : BundleDaemonACS) :
    AcsEvent → Except Fault BundleDaemonACS
  | .addBundleToAcs custodyEid succeeded reason custodyId =>
    handleAddBundleToAcs eidMatch d custodyEid succeeded reason custodyId
  | .addBibeBundleToAcs bpVersion custodyEid success reason transmissionId =>
    addBibeBundleToAcs eidMatch d bpVersion custodyEid success reason transmissionId
  | .acsExpired key pacsId => handleAcsExpired d key pacsId
  | .setRouteAcsParams arp => .ok (setRouteAcsParams d arp)
  | .deleteRouteAcsParams endpoint => .ok (deleteRouteAcsParams d endpoint)
  | .setDefaultParams acsDelay acsSize => .ok { d with acsDelay, acsSize }

end Dtnme.Bundling
