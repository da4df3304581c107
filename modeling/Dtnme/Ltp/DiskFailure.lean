import Dtnme.Ltp.Delivery
import Dtnme.Ltp.SessionFile

/-! # Disk failures of a session

A red segment of a session that spools to disk is counted first and stored after. When
the file cannot be opened the session goes back to memory, when a write fails it is
cancelled. What is handed on holds every received byte along the runs in which the file
opens at the first try and no failure is forgotten.
-/

namespace Dtnme.Ltp
open Library

/-- How the first `open` of the session file ends: at once, on the second name after the first
one existed, or not at all. -/
inductive OpenAnswer
  | opened
  | renamed
  | fails
  deriving DecidableEq, Repr

/-- What the system answers while one segment is processed. -/
structure Answers where
  pathMade : Bool := true
  opened : OpenAnswer := .opened
  first : DiskAnswer := .wrote 0
  second : DiskAnswer := .wrote 0
  room : Bool := true
  deriving DecidableEq, Repr

/-! ## Opening the file -/

namespace SessionFile

/-- The first part of `open_file_write`: the directory is made once. -/
def makePath (f : SessionFile) (a : Answers) : SessionFile :=
  if f.dirPathSet then f
  else if a.pathMade then { f with dirPathSet := true, hasDataFile := true }
  else { f with dirPathSet := true, useFile := false, diskIoError := true }

/-- `open_file_write`. The retry under a second name leaves the result false. -/
def openFileWrite (f : SessionFile) (a : Answers) : Except StoreFault (Bool × SessionFile) :=
  if f.isOpen then .ok (true, f)
  else
    let f := f.makePath a
    if f.diskIoError || !f.hasDataFile then .ok (false, f)
    else
      match a.opened with
      | .opened => .ok (true, { f with isOpen := true })
      | .renamed => .ok (false, { f with isOpen := true })
      | .fails =>
        if f.bytesWrittenToDisk ≠ 0 then .error .assertFailed
        else .ok (false, { f with useFile := false, diskIoError := true })

/-- `store_data_in_file`. -/
def storeData (f : SessionFile) (a : Answers) (lastSeg : Bool) (ds : LTPDataSegment) :
    Except StoreFault (Bool × SessionFile) :=
  if f.useFile then do
    let r ← f.openFileWrite a
    if r.1 then r.2.writeDsToFile lastSeg a.first a.second ds else .ok r
  else .ok (false, f)

def abortDueToDiskIoError (f : SessionFile) : Bool := f.useFile && f.diskIoError

end SessionFile

/-! ## Adding a segment -/

/-- The red data handed on: the session file or the segment map. -/
inductive Handed
  | file (content : ℕ → Option UInt8)
  | segments (m : OrdMap ℕ LTPDataSegment)

/-- The segment map, when it is what was handed on. -/
def Handed.map? : Handed → Option (OrdMap ℕ LTPDataSegment)
  | .file _ => none
  | .segments m => some m

theorem Handed.eq_segments {h : Option Handed} {m : OrdMap ℕ LTPDataSegment}
    (hm : h.bind Handed.map? = some m) : h = some (.segments m) := by
  obtain ⟨d, rfl, hd⟩ := Option.bind_eq_some_iff.mp hm
  cases d with
  | file content => simp [Handed.map?] at hd
  | segments m' => simpa [Handed.map?] using hd

/-- A session that spools to disk; `handed` is what the last segment handed on. -/
structure Spool where
  session : LTPSession
  file : SessionFile := {}
  cancelled : Bool := false
  handed : Option Handed := none

/-- A session right after `set_file_usage`. -/
def Spool.new (engineId sessionId : ℕ) : Spool := { session := .new engineId sessionId }

/-- Return status, session and the segment as trimmed. -/
structure SpoolResult where
  status : ℤ
  spool : Spool
  ds : LTPDataSegment

def LTPSession.enterRed (s : LTPSession) (ds : LTPDataSegment) : LTPSession :=
  { s with redSegments := s.redSegments.insert ds.startByte ds }

theorem enterRed_countRed (s : LTPSession) (ds : LTPDataSegment) :
    (s.countRed ds).enterRed ds = s.storeRed ds := rfl

/-- A storable red segment: counted, stored in the file or kept, and entered in the map. -/
def storeRedSpool (x : Spool) (a : Answers) (ds : LTPDataSegment) :
    Except StoreFault SpoolResult :=
  let s := x.session.countRed ds
  if x.file.useFile then
    if ds.isEndofblock ∧ ds.offset = 0 then
      .ok ⟨0, { x with session := s.enterRed ds, file := { x.file with useFile := false } }, ds⟩
    else do
      let r ← x.file.storeData a s.lastSeg ds
      if r.1 then
        .ok ⟨0, { x with session := s.enterRed ds.released, file := r.2 }, ds.released⟩
      else .ok ⟨-99, { x with session := s, file := r.2 }, ds⟩
  else .ok ⟨0, { x with session := s.enterRed ds }, ds⟩

/-- The red case, once the block map has been updated. -/
def addRedSpool (x : Spool) (a : Answers) (ds : LTPDataSegment) (r : ContigCheck) :
    Except StoreFault SpoolResult :=
  let s := x.session.setContig r
  if r.duplicate then .ok ⟨-1, { x with session := s }, ds⟩
  else if !r.overlap then storeRedSpool { x with session := s } a ds
  else
    match checkAndTrim s.redSegments s.redBytesReceived ds with
    | .error fault => .error (.session fault)
    | .ok t =>
      let s := { s with redSegments := t.segments, redBytesReceived := t.redBytes }
      if t.insert then storeRedSpool { x with session := s } a t.ds
      else .ok ⟨-1, { x with session := s }, t.ds⟩

/-- `AddSegment_incoming` for red segments. -/
def addSegmentSpool (x : Spool) (a : Answers) (ds : LTPDataSegment) :
    Except StoreFault SpoolResult :=
  if x.session.redProcessed then .ok ⟨-1, x, ds⟩
  else
    let s := x.session.noteRedEob ds
    match checkRedContigBlocks s.redContigBlocks ds.startByte ds.stopByte with
    | .error fault => .error (.session fault)
    | .ok r => addRedSpool { x with session := s } a ds r

/-! ## Processing a segment -/

/-- Hand on the red data: close the file, or copy the segment map. -/
def handOn (x : Spool) : Except StoreFault Spool :=
  if x.file.useFile then
    .ok { x with
      session := { x.session with redProcessed := true }
      file := { x.file with isOpen := false, hasDataFile := false, workBufAllocated := false }
      handed := some (.file x.file.content) }
  else
    match getAllRedData x.session with
    | .error fault => .error (.session fault)
    | .ok (m, s) => .ok { x with session := s, handed := some (.segments m) }

/-- A stored segment may end the block and fill it; the data is then handed on, or the session
is cancelled for want of space. -/
def acceptRed (x : Spool) (room : Bool) (ds : LTPDataSegment) : Except StoreFault Spool :=
  let x := { x with session := if ds.isEndofblock then setEob x.session ds else x.session }
  if isRedFull x.session = 0 then .ok x
  else if room then handOn x
  else .ok { x with cancelled := true }

/-- `process_incoming_data_segment` for a red segment, as far as the data goes. -/
def processSegment (x : Spool) (i : Answers × LTPDataSegment) : Except StoreFault Spool :=
  let x := { x with handed := none }
  if x.cancelled || x.session.dataProcessed then .ok x
  else do
    let r ← addSegmentSpool x i.1 i.2
    if r.status = -1 then .ok r.spool
    else if r.status = -99 ∧ r.spool.file.abortDueToDiskIoError then
      .ok { r.spool with cancelled := true }
    else acceptRed r.spool i.1.room r.ds

/-! ## What has to hold -/

/-- The handed data contains the bytes of the segment at their offsets. -/
def Handed.Holds (ds : LTPDataSegment) : Handed → Prop
  | .file content => HoldsAt content ds.offset ds.payload
  | .segments m => ∀ i, i < ds.payload.length →
      ∃ k es, m.find? k = some es ∧ k ≤ ds.offset + i ∧
        es.payload[ds.offset + i - k]? = ds.payload[i]?

/-- The session is cancelled, or what was handed on just now holds every received byte. -/
def Delivers (x : Spool) (past : List (Answers × LTPDataSegment)) : Prop :=
  x.cancelled = true ∨ ∀ d, x.handed = some d → ∀ p ∈ past, d.Holds p.2

/-- A parsed red segment. -/
structure Incoming (ds : LTPDataSegment) : Prop where
  red : IncomingRed ds
  carries : Carries ds
  offset : ds.offset = ds.startByte

/-- Two segments without a common byte. -/
def Apart (ds es : LTPDataSegment) : Prop :=
  ds.stopByte < es.startByte ∨ es.stopByte < ds.startByte

instance (ds es : LTPDataSegment) : Decidable (Apart ds es) :=
  inferInstanceAs (Decidable (_ ∨ _))

/-- The steps that keep every byte: an end of block at offset 0 comes while the file is not open;
otherwise the file is open or opens at the first try, and the writes lose nothing unnoticed. -/
def KeepsBytes (x : Spool) (i : Answers × LTPDataSegment) : Prop :=
  x.cancelled = false → x.session.dataProcessed = false → x.file.useFile = true →
    if i.2.isEndofblock ∧ i.2.offset = 0 then x.file.isOpen = false
    else (x.file.isOpen = true ∨ (i.1.pathMade = true ∧ i.1.opened = .opened)) ∧
      ¬ x.file.Loses (x.session.countRed i.2).lastSeg i.1.first i.1.second i.2

instance (x : Spool) (i : Answers × LTPDataSegment) : Decidable (KeepsBytes x i) := by
  unfold KeepsBytes
  infer_instance

variable {x : Spool} {past : List (Answers × LTPDataSegment)} {a : Answers} {ds : LTPDataSegment}
  {S : Set ℕ} {s : LTPSession}

/-! ## Adding a segment none of whose bytes was received -/

/-- The block map takes the segment, and the segment goes on to be stored as it came. -/
theorem addSegmentSpool_apart (h : Consistent x.session S) (hds : IncomingRed ds)
    (hnew : ∀ b, ds.startByte ≤ b → b ≤ ds.stopByte → b ∉ S) :
    ∃ c, Consistent ((x.session.noteRedEob ds).setContig c) (extend S ds) ∧
      addSegmentSpool x a ds =
        storeRedSpool { x with session := (x.session.noteRedEob ds).setContig c } a ds := by
  obtain ⟨hmerge, hstart, hset, hout⟩ := h.apart hds hnew
  obtain ⟨r, hr, hdup, ha⟩ :=
    checkRedContigBlocks_mergeable h.blocks h.bound hds.2.ordered hds.2.bound hmerge
  refine ⟨r, (h.noteRedEob ds).setContig hds.2 hdup ha, ?_⟩
  have hcheck : checkRedContigBlocks (x.session.noteRedEob ds).redContigBlocks ds.startByte
      ds.stopByte = .ok r := hr
  rw [addSegmentSpool, if_neg (by simp [h.live])]
  simp only [hcheck, addRedSpool, hdup, Bool.false_eq_true, if_false]
  cases hov : r.overlap with
  | false => rfl
  | true =>
    obtain ⟨m, ds', hloop, ht⟩ := trimLoop_settles (trimFuel x.session.redSegments ds) h.segments
      hds.2 hstart hset (by unfold trimFuel; omega) h.sum_lt
    obtain ⟨rfl, rfl⟩ := ht.untouched hout
    have htrim : checkAndTrim ((x.session.noteRedEob ds').setContig r).redSegments
        ((x.session.noteRedEob ds').setContig r).redBytesReceived ds' =
          .ok ⟨true, x.session.redSegments, x.session.redBytesReceived, ds'⟩ := by
      show checkAndTrim x.session.redSegments x.session.redBytesReceived ds' = _
      unfold checkAndTrim
      rw [hstart, h.count]
      exact hloop
    simp only [htrim, Bool.not_true, Bool.false_eq_true, if_false, if_true]
    rfl

/-- A counted segment, with or without its payload, can be entered in the map. -/
theorem Consistent.enterRed (h : Consistent s (extend S ds)) (hds : IncomingRed ds)
    (hout : ∀ k es, s.redSegments.find? k = some es → es.stopByte < ds.startByte ∨ ds.stopByte < k)
    {e : LTPDataSegment} (he : e = ds ∨ e = ds.released) :
    Consistent ((s.countRed ds).enterRed e) (extend S ds) := by
  have hsame : s.countRed ds = s.countRed e ∧ e.startByte = ds.startByte ∧
      e.stopByte = ds.stopByte ∧ e.payloadLength = ds.payloadLength := by
    rcases he with rfl | rfl <;> exact ⟨rfl, rfl, rfl, rfl⟩
  obtain ⟨hcount, hstart, hstop, hlen⟩ := hsame
  have hr : Ranged e := by
    constructor
    · rw [hstart, hstop, hlen, hds.2.length]
    · rw [hstart, hstop]
      exact hds.2.ordered
    · rw [hstop]
      exact hds.2.bound
  have ht : Trimmed s.redSegments s.redSegments e e :=
    ⟨h.segments, fun _ _ hk => hk, hr, rfl, le_rfl, rfl, by rw [hstart, hstop]; exact hout,
      fun _ => rfl, fun _ => ⟨rfl, rfl⟩⟩
  have hstore := h.storeTrimmed ht fun b h₁ h₂ => Or.inr ⟨hstart ▸ h₁, hstop ▸ h₂⟩
  rw [hcount, enterRed_countRed]
  simpa only [LTPSession.storeTrimmed, ← h.count] using hstore

/-! ## What is stored -/

theorem Incoming.end_eq (h : Incoming ds) : ds.offset + ds.payload.length = ds.stopByte + 1 := by
  rw [h.carries.length, h.offset, Nat.add_comm]
  exact h.red.2.length

/-- Immediate writes of segments that lie apart keep them all. -/
theorem writtenAtOnce_holds {l : List LTPDataSegment} (hl : ∀ ds ∈ l, Incoming ds)
    (hapart : l.Pairwise Apart) : ∀ ds ∈ l, HoldsAt (writtenAtOnce l) ds.offset ds.payload := by
  induction l using List.reverseRecOn with
  | nil => simp
  | append_singleton l es ih =>
    rw [List.pairwise_append] at hapart
    obtain ⟨hpair, -, hlast⟩ := hapart
    have hsnoc : writtenAtOnce (l ++ [es]) = writeAt (writtenAtOnce l) es.offset es.payload := by
      simp [writtenAtOnce]
    intro ds hds
    rw [hsnoc]
    rcases List.mem_append.mp hds with hold | hself
    · refine (ih (fun d hd => hl d (List.mem_append_left _ hd)) hpair ds hold).writeAt ?_
      have hend := (hl ds hds).end_eq
      have hend' := (hl es (by simp)).end_eq
      have hoff := (hl ds hds).offset
      have hoff' := (hl es (by simp)).offset
      have := hlast ds hold es (by simp)
      unfold Apart at this
      omega
    · rw [List.mem_singleton.mp hself]
      exact writeAt_holds _ _ _

/-- The segments are staged or in the file, which is open once there are any. -/
structure OnDisk (f : SessionFile) (l : List LTPDataSegment) : Prop where
  useFile : f.useFile = true
  diskIoError : f.diskIoError = false
  staged : f.Staged
  overlay : f.overlay = writtenAtOnce l
  opened : f.isOpen = true ∨ (f.dirPathSet = false ∧ l = [])

/-- The segments are in the map with their payloads. -/
structure InMemory (x : Spool) (l : List LTPDataSegment) : Prop where
  useFile : x.file.useFile = false
  found : ∀ ds ∈ l, x.session.redSegments.find? ds.startByte = some ds

/-- A session that still receives. -/
structure Receiving (x : Spool) (l : List LTPDataSegment) : Prop where
  cancelled : x.cancelled = false
  green : x.session.greenProcessed = false
  handed : x.handed = none
  consistent : Consistent x.session (receivedBytes l)
  stored : OnDisk x.file l ∨ InMemory x l

/-- What every run keeps. -/
structure Spools (x : Spool) (past : List (Answers × LTPDataSegment)) : Prop where
  delivers : Delivers x past
  phase : x.cancelled = true ∨ x.session.dataProcessed = true ∨ Receiving x (past.map Prod.snd)

theorem Consistent.setEob (h : Consistent s S) (ds : LTPDataSegment) :
    Consistent (setEob s ds) S := by
  unfold Ltp.setEob
  cases ds.redGreen <;> exact { h with }

/-- The stored data is handed on whole. -/
theorem handOn_holds {l : List LTPDataSegment} (h : Receiving x l)
    (hl : ∀ ds ∈ l, Incoming ds) (hapart : l.Pairwise Apart)
    (hflushed : x.file.useFile = true → x.file.Flushed) (hfull : isRedFull x.session ≠ 0) :
    ∃ y, handOn x = .ok y ∧ y.session.redProcessed = true ∧
      ∀ d, y.handed = some d → ∀ ds ∈ l, d.Holds ds := by
  rcases h.stored with hdisk | hmem
  · rw [handOn, if_pos hdisk.useFile]
    refine ⟨_, rfl, rfl, ?_⟩
    intro d hd ds hds
    cases hd
    have hcontent := (hflushed hdisk.useFile).overlay
    rw [hdisk.overlay] at hcontent
    show HoldsAt x.file.content ds.offset ds.payload
    rw [← hcontent]
    exact writtenAtOnce_holds hl hapart ds hds
  · rw [handOn, if_neg (by simp [hmem.useFile]), Ltp.getAllRedData, if_pos (by omega)]
    refine ⟨_, rfl, rfl, ?_⟩
    intro d hd ds hds
    cases hd
    intro i hi
    refine ⟨ds.startByte, ds, hmem.found ds hds, ?_, ?_⟩
    · rw [(hl ds hds).offset]
      omega
    · rw [(hl ds hds).offset, Nat.add_sub_cancel_left]

/-- What becomes of a stored segment. -/
theorem acceptRed_spools {p : List (Answers × LTPDataSegment)} (h : Receiving x (p.map Prod.snd))
    (hl : ∀ ds ∈ p.map Prod.snd, Incoming ds) (hapart : (p.map Prod.snd).Pairwise Apart)
    (room : Bool) (hflushed : x.file.useFile = true →
      ds.isEndofblock = true ∨ x.session.lastSeg = true → x.file.Flushed) :
    ∃ y, acceptRed x room ds = .ok y ∧ Spools y p := by
  unfold acceptRed
  generalize hs : (if ds.isEndofblock = true then setEob x.session ds else x.session) = s
  have hrec : Receiving { x with session := s } (p.map Prod.snd) := by
    refine ⟨h.cancelled, ?_, h.handed, ?_, h.stored.imp_right fun hm => ⟨hm.useFile, ?_⟩⟩
    · rw [← hs]
      have hgreen := h.green
      split_ifs
      · unfold setEob
        cases ds.redGreen <;> exact hgreen
      · exact hgreen
    · rw [← hs]
      split_ifs
      · exact h.consistent.setEob ds
      · exact h.consistent
    · have hsame : s.redSegments = x.session.redSegments := by
        rw [← hs]
        split_ifs
        · unfold setEob
          cases ds.redGreen <;> rfl
        · rfl
      simp only [hsame]
      exact hm.found
  by_cases hfull : isRedFull s = 0
  · simp only [hfull, if_true]
    exact ⟨_, rfl, Or.inr (by simp [h.handed]), Or.inr (Or.inr hrec)⟩
  · simp only [hfull, if_false]
    cases room with
    | false => exact ⟨_, rfl, Or.inl rfl, Or.inl rfl⟩
    | true =>
      have hlast : x.file.useFile = true → x.file.Flushed := by
        intro huse
        refine hflushed huse ?_
        by_cases heob : ds.isEndofblock = true
        · exact Or.inl heob
        · rw [if_neg heob] at hs
          rw [hs]
          simp only [isRedFull] at hfull
          refine Or.inr ?_
          simp only [LTPSession.lastSeg, Bool.and_eq_true, beq_iff_eq]
          split_ifs at hfull with hflags heq
          · simp only [Bool.and_eq_true] at hflags
            exact ⟨hflags.1.2, heq⟩
          all_goals exact absurd rfl hfull
      obtain ⟨y, hy, hproc, hholds⟩ := handOn_holds hrec hl hapart hlast hfull
      refine ⟨y, hy, Or.inr fun d hd q hq => hholds d hd q.2 (List.mem_map_of_mem hq),
        Or.inr (Or.inl ?_)⟩
      simp [LTPSession.dataProcessed, hproc]

/-! ## One segment -/

/-- A file that is open, or opens at the first try, is used as it is. -/
theorem openFileWrite_opens {f : SessionFile} {l : List LTPDataSegment} (h : OnDisk f l)
    (hopen : f.isOpen = true ∨ (a.pathMade = true ∧ a.opened = .opened)) :
    ∃ g, f.openFileWrite a = .ok (true, g) ∧ OnDisk g l ∧ g.isOpen = true ∧
      ∀ lastSeg first second ds, g.Loses lastSeg first second ds ↔
        f.Loses lastSeg first second ds := by
  unfold SessionFile.openFileWrite
  by_cases hf : f.isOpen = true
  · rw [if_pos hf]
    exact ⟨f, rfl, h, hf, fun _ _ _ _ => Iff.rfl⟩
  · obtain ⟨hpath, hans⟩ := hopen.resolve_left hf
    obtain ⟨hdir, -⟩ := h.opened.resolve_left hf
    have hmake : f.makePath a = { f with dirPathSet := true, hasDataFile := true } := by
      rw [SessionFile.makePath, if_neg (by simp [hdir]), if_pos hpath]
    rw [if_neg hf, hmake]
    simp only [h.diskIoError, Bool.not_true, Bool.or_false, Bool.false_eq_true, if_false, hans]
    refine ⟨_, rfl, ⟨h.useFile, rfl, ?_, h.overlay, Or.inl rfl⟩, rfl, fun _ _ _ _ => Iff.rfl⟩
    exact ⟨h.staged.size, h.staged.available, h.staged.length, h.staged.kept, h.staged.exclusive⟩

/-- Storing in an open file, or in one that opens at the first try, stores the segment or asks
for cancellation. -/
theorem storeData_stores {f : SessionFile} {l : List LTPDataSegment} (h : OnDisk f l)
    (hds : Carries ds) (hopen : f.isOpen = true ∨ (a.pathMade = true ∧ a.opened = .opened))
    {lastSeg : Bool} (hkeep : ¬ f.Loses lastSeg a.first a.second ds) :
    ∃ r g, f.storeData a lastSeg ds = .ok (r, g) ∧
      ((r = true ∧ OnDisk g (l ++ [ds]) ∧
          (ds.isEndofblock = true ∨ lastSeg = true → g.Flushed)) ∨
        (r = false ∧ g.abortDueToDiskIoError = true)) := by
  obtain ⟨g₁, hopened, hdisk, hisOpen, hsame⟩ := openFileWrite_opens h hopen
  obtain ⟨r, g, hwrite, hcases⟩ := SessionFile.writeDsToFile_stores hdisk.staged hds lastSeg
    (fun hl => hkeep ((hsame _ _ _ _).mp hl))
  refine ⟨r, g, ?_, ?_⟩
  · rw [SessionFile.storeData, if_pos h.useFile, hopened]
    exact hwrite
  · rcases hcases with ⟨hr, hst⟩ | ⟨hr, -, herr, huse⟩
    · refine Or.inl ⟨hr, ⟨?_, ?_, hst.staged, ?_, ?_⟩, hst.flushed⟩
      · rw [hst.useFile, hdisk.useFile]
      · rw [hst.diskIoError, hdisk.diskIoError]
      · rw [hst.overlay, hdisk.overlay]
        simp [writtenAtOnce]
      · exact Or.inl (by rw [hst.isOpen, hisOpen])
    · refine Or.inr ⟨hr, ?_⟩
      rw [SessionFile.abortDueToDiskIoError, huse, hdisk.useFile, herr]
      rfl

/-- A segment entered in the map is found there, and so are the others. -/
theorem InMemory.enter {y : Spool} {l : List LTPDataSegment}
    (h : ∀ es ∈ l, x.session.redSegments.find? es.startByte = some es)
    (huse : y.file.useFile = false)
    (hmap : y.session.redSegments = x.session.redSegments.insert ds.startByte ds)
    (hnew : x.session.redSegments.find? ds.startByte = none) : InMemory y (l ++ [ds]) := by
  refine ⟨huse, fun es hes => ?_⟩
  rw [hmap, OrdMap.find?_insert]
  rcases List.mem_append.mp hes with hold | hself
  · have hne : es.startByte ≠ ds.startByte := by
      intro heq
      have := h es hold
      rw [heq, hnew] at this
      cases this
    rw [if_neg hne]
    exact h es hold
  · rw [List.mem_singleton.mp hself, if_pos rfl]

/-- A counted segment is stored with its predecessors, or the error asks for cancellation. -/
theorem storeRedSpool_stores {l : List LTPDataSegment} (h : Receiving x l) (hds : Incoming ds)
    (hnew : x.session.redSegments.find? ds.startByte = none)
    (hout : ∀ k es, x.session.redSegments.find? k = some es →
      es.stopByte < ds.startByte ∨ ds.stopByte < k)
    (hkeep : KeepsBytes x (a, ds)) {c : ContigCheck}
    (hcons : Consistent ((x.session.noteRedEob ds).setContig c) (extend (receivedBytes l) ds)) :
    ∃ r, storeRedSpool { x with session := (x.session.noteRedEob ds).setContig c } a ds = .ok r ∧
      ((r.status = 0 ∧ Receiving r.spool (l ++ [ds]) ∧ (r.spool.file.useFile = true →
          r.ds.isEndofblock = true ∨ r.spool.session.lastSeg = true → r.spool.file.Flushed)) ∨
        (r.status = -99 ∧ r.spool.file.abortDueToDiskIoError = true)) := by
  have hlive : x.session.dataProcessed = false := by
    simp [LTPSession.dataProcessed, h.green, h.consistent.live]
  have hkeep := hkeep h.cancelled hlive
  rw [← receivedBytes_append] at hcons
  have hstored := hcons
  rw [receivedBytes_append] at hstored
  have hlast : (((x.session.noteRedEob ds).setContig c).countRed ds).lastSeg =
      (x.session.countRed ds).lastSeg := rfl
  unfold storeRedSpool
  rcases h.stored with hdisk | hmem
  · have hkeep := hkeep hdisk.useFile
    simp only [hdisk.useFile, if_true]
    by_cases hfirst : ds.isEndofblock = true ∧ ds.offset = 0
    · rw [if_pos hfirst] at hkeep ⊢
      obtain ⟨-, rfl⟩ := hdisk.opened.resolve_left (by simp [hkeep])
      have hentered := hstored.enterRed hds.red hout (Or.inl rfl)
      rw [← receivedBytes_append] at hentered
      refine ⟨_, rfl, Or.inl ⟨rfl, ⟨h.cancelled, h.green, h.handed, hentered, Or.inr ?_⟩, ?_⟩⟩
      · exact InMemory.enter (x := x) (by simp) rfl rfl hnew
      · simp
    · rw [if_neg hfirst] at hkeep ⊢
      obtain ⟨r, g, hdata, ⟨rfl, hg, hflush⟩ | ⟨rfl, habort⟩⟩ :=
        storeData_stores hdisk hds.carries hkeep.1 hkeep.2
      · have hentered := hstored.enterRed hds.red hout (Or.inr rfl)
        rw [← receivedBytes_append] at hentered
        rw [hlast, hdata]
        exact ⟨_, rfl, Or.inl ⟨rfl, ⟨h.cancelled, h.green, h.handed, hentered, Or.inl hg⟩,
          fun _ => hflush⟩⟩
      · rw [hlast, hdata]
        exact ⟨_, rfl, Or.inr ⟨rfl, habort⟩⟩
  · have hentered := hstored.enterRed hds.red hout (Or.inl rfl)
    rw [← receivedBytes_append] at hentered
    simp only [hmem.useFile, Bool.false_eq_true, if_false]
    refine ⟨_, rfl, Or.inl ⟨rfl, ⟨h.cancelled, h.green, h.handed, hentered, Or.inr ?_⟩, ?_⟩⟩
    · exact InMemory.enter (x := x) hmem.found hmem.useFile rfl hnew
    · simp [hmem.useFile]

/-- The step of a session that receives. -/
theorem processSegment_eq (hcancel : x.cancelled = false)
    (hlive : x.session.dataProcessed = false) (hhanded : x.handed = none) {r : SpoolResult}
    (hadd : addSegmentSpool x a ds = .ok r) :
    processSegment x (a, ds) =
      if r.status = -1 then .ok r.spool
      else if r.status = -99 ∧ r.spool.file.abortDueToDiskIoError then
        .ok { r.spool with cancelled := true }
      else acceptRed r.spool a.room r.ds := by
  obtain ⟨s, f, c, d⟩ := x
  obtain rfl : c = false := hcancel
  obtain rfl : d = none := hhanded
  have hlive : s.dataProcessed = false := hlive
  simp only [processSegment, hlive, Bool.or_self, Bool.false_eq_true, if_false]
  rw [hadd]
  rfl

/-- Along the steps that keep every byte, a receiving session stays sound. -/
theorem processSegment_receiving (h : Receiving x (past.map Prod.snd))
    (hl : ∀ es ∈ (past ++ [(a, ds)]).map Prod.snd, Incoming es)
    (hapart : ((past ++ [(a, ds)]).map Prod.snd).Pairwise Apart) (hkeep : KeepsBytes x (a, ds)) :
    ∃ y, processSegment x (a, ds) = .ok y ∧ Spools y (past ++ [(a, ds)]) := by
  have hds : Incoming ds := hl ds (by simp)
  have hlive : x.session.dataProcessed = false := by
    simp [LTPSession.dataProcessed, h.green, h.consistent.live]
  have hnew : ∀ b, ds.startByte ≤ b → b ≤ ds.stopByte →
      b ∉ receivedBytes (past.map Prod.snd) := by
    rintro b h₁ h₂ ⟨es, hes, h₃, h₄⟩
    simp only [List.map_append, List.pairwise_append] at hapart
    have := hapart.2.2 es hes ds (by simp)
    unfold Apart at this
    omega
  obtain ⟨c, hcons, hadd⟩ := addSegmentSpool_apart (x := x) (a := a) h.consistent hds.red hnew
  obtain ⟨-, hstart, -, hout⟩ := h.consistent.apart hds.red hnew
  obtain ⟨r, hstore, hcases⟩ := storeRedSpool_stores h hds hstart hout hkeep hcons
  rw [processSegment_eq h.cancelled hlive h.handed (hadd.trans hstore)]
  rcases hcases with ⟨hstatus, hrec, hflush⟩ | ⟨hstatus, habort⟩
  · rw [hstatus, if_neg (by decide), if_neg (by simp)]
    have hmap : (past ++ [(a, ds)]).map Prod.snd = past.map Prod.snd ++ [ds] := by simp
    exact acceptRed_spools (hmap ▸ hrec) hl hapart a.room hflush
  · rw [hstatus, if_neg (by decide), if_pos ⟨rfl, habort⟩]
    exact ⟨_, rfl, Or.inl rfl, Or.inl rfl⟩

/-! ## Runs -/

theorem Spools.new (engineId sessionId : ℕ) : Spools (.new engineId sessionId) [] := by
  refine ⟨Or.inr (by simp [Spool.new]), Or.inr (Or.inr ⟨rfl, rfl, rfl, ?_, Or.inl ?_⟩)⟩
  · have hempty : receivedBytes ([] : List LTPDataSegment) = ∅ := by simp [receivedBytes]
    rw [List.map_nil, hempty]
    exact .new engineId sessionId
  · refine ⟨rfl, rfl, ?_, ?_, Or.inr ⟨rfl, rfl⟩⟩
    · exact SessionFile.Staged.fresh
    · simp [SessionFile.overlay, writtenAtOnce, Spool.new]

/-- A cancelled session and one whose data was handed on do nothing more. -/
theorem processSegment_done (h : x.cancelled = true ∨ x.session.dataProcessed = true)
    (i : Answers × LTPDataSegment) : processSegment x i = .ok { x with handed := none } := by
  unfold processSegment
  rcases h with h | h <;> simp [h]

/-- One segment of a run of segments that lie apart. -/
theorem processSegment_spools {l : List (Answers × LTPDataSegment)} (hl : ∀ i ∈ l, Incoming i.2)
    (hapart : (l.map Prod.snd).Pairwise Apart) {i : Answers × LTPDataSegment}
    (hpre : past ++ [i] <+: l) (h : Spools x past) (hkeep : KeepsBytes x i) :
    ∃ y, processSegment x i = .ok y ∧ Spools y (past ++ [i]) := by
  rcases h.phase with hdone | hdone | hrec
  · rw [processSegment_done (Or.inl hdone)]
    exact ⟨_, rfl, Or.inl hdone, Or.inl hdone⟩
  · rw [processSegment_done (Or.inr hdone)]
    exact ⟨_, rfl, Or.inr (by simp), Or.inr (Or.inl hdone)⟩
  · refine processSegment_receiving hrec ?_ (hapart.sublist (hpre.sublist.map Prod.snd)) hkeep
    intro es hes
    obtain ⟨j, hj, rfl⟩ := List.mem_map.mp hes
    exact hl j (hpre.subset hj)

/-- After every segment of such a run the session is cancelled, or what was handed on just now
holds every received byte. -/
theorem processSegment_run_delivers (engineId sessionId : ℕ) (l : List (Answers × LTPDataSegment))
    (hl : ∀ i ∈ l, Incoming i.2) (hapart : (l.map Prod.snd).Pairwise Apart)
    (hkeep : Meets processSegment KeepsBytes (.new engineId sessionId) l) (n : ℕ) :
    ∃ x, run processSegment (.new engineId sessionId) (l.take n) = .ok x ∧
      Delivers x (l.take n) := by
  obtain ⟨x, hrun, hspools⟩ := run_invariant_prefix Spools
    (fun x past i hpre h hi =>
      processSegment_spools hl hapart (hpre.trans (List.take_prefix n l)) h hi)
    (Spools.new engineId sessionId) (hkeep.take n)
  exact ⟨x, hrun, hspools.delivers⟩

instance (ds : LTPDataSegment) : Decidable (Incoming ds) :=
  decidable_of_iff (IncomingRed ds ∧ (ds.payload.length = ds.payloadLength ∧
    0 < ds.payloadLength) ∧ ds.offset = ds.startByte)
    ⟨fun h => ⟨h.1, ⟨h.2.1.1, h.2.1.2⟩, h.2.2⟩,
      fun h => ⟨h.red, ⟨h.carries.length, h.carries.nonempty⟩, h.offset⟩⟩

/-- A write that fails while another segment is stored cancels the session. -/
theorem processSegment_run_delivers_failure :
    ∃ x, run processSegment (.new 1 1) ([({}, redPiece 0 [1, 2] false),
        ({ first := .writeFails }, redPiece 4 [5] false),
        ({}, redPiece 2 [3, 4] true)].take 3) = .ok x ∧
      Delivers x ([({}, redPiece 0 [1, 2] false),
        ({ first := .writeFails }, redPiece 4 [5] false),
        ({}, redPiece 2 [3, 4] true)].take 3) :=
  processSegment_run_delivers 1 1 [({}, redPiece 0 [1, 2] false),
    ({ first := .writeFails }, redPiece 4 [5] false), ({}, redPiece 2 [3, 4] true)]
    (by decide +kernel) (by decide +kernel) (by decide +kernel) 3

/-- The file cannot be opened: the first segment is counted but kept nowhere, and the block is
handed on without it. -/
theorem processSegment_run_not_delivers :
    ¬ ∀ (engineId sessionId : ℕ) (l : List (Answers × LTPDataSegment)),
      (∀ i ∈ l, Incoming i.2) → (l.map Prod.snd).Pairwise Apart → ∀ n,
      ∃ x, run processSegment (.new engineId sessionId) (l.take n) = .ok x ∧
        Delivers x (l.take n) := by
  intro hall
  obtain ⟨x, hx, hdel⟩ := hall 1 1 [({ opened := .fails }, redPiece 0 [1, 2] false),
    ({}, redPiece 2 [3] true)] (by decide +kernel) (by decide +kernel) 2
  have hrun : ∃ y, run processSegment (.new 1 1) [({ opened := .fails }, redPiece 0 [1, 2] false),
      ({}, redPiece 2 [3] true)] = .ok y ∧ y.cancelled = false ∧
        y.handed.bind Handed.map? = some (OrdMap.empty.insert 2 (redPiece 2 [3] true)) := by
    decide +kernel
  obtain ⟨y, hy, hcancel, hmap⟩ := hrun
  rw [List.take_of_length_le (by simp), hy] at hx
  cases hx
  have hholds := hdel.resolve_left (by simp [hcancel]) _ (Handed.eq_segments hmap)
    ({ opened := .fails }, redPiece 0 [1, 2] false) (by simp)
  obtain ⟨k, es, hk, hle, -⟩ := hholds 0 (by decide)
  obtain rfl : k = 0 := Nat.le_zero.mp hle
  rw [OrdMap.find?_insert] at hk
  simp at hk

end Dtnme.Ltp
