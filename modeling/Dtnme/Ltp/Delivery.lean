import Dtnme.Ltp.Completion

/-! # Delivery in any order

A conforming sender cuts a block into consecutive red segments and flags the last one.
Whatever the order of arrival and the number of copies, the red part becomes full with
the last missing segment, and the segments that are handed over spell the block.
-/

namespace Dtnme.Ltp
open Library Runs

variable {s : LTPSession} {ds : LTPDataSegment} {S : Set ℕ}

/-- Consecutive red segments that spell a block from an offset on, the last one flagged. -/
def Partitions (offset : ℕ) : List LTPDataSegment → List UInt8 → Prop
  | [], block => block = []
  | ds :: rest, block =>
    ds.redGreen = .red ∧ ds.isRedEndofblock = rest.isEmpty ∧ ds.isGreenEndofblock = false ∧
      ds.startByte = offset ∧ ds.payload ≠ [] ∧ ds.payloadLength = ds.payload.length ∧
      ds.stopByte + 1 = offset + ds.payload.length ∧
      ∃ tail, block = ds.payload ++ tail ∧ Partitions (offset + ds.payload.length) rest tail

namespace Partitions

variable {offset : ℕ} {parts : List LTPDataSegment} {block : List UInt8}

theorem start_ge (h : Partitions offset parts block) (hds : ds ∈ parts) :
    offset ≤ ds.startByte := by
  induction parts generalizing offset block with
  | nil => cases hds
  | cons p rest ih =>
    obtain ⟨-, -, -, hstart, -, -, -, tail, -, hrest⟩ := h
    rcases List.mem_cons.mp hds with rfl | hds
    · exact hstart.ge
    · exact (Nat.le_add_right _ _).trans (ih hrest hds)

theorem shape (h : Partitions offset parts block) (hds : ds ∈ parts) :
    ds.redGreen = .red ∧ ds.isGreenEndofblock = false ∧ ds.startByte ≤ ds.stopByte ∧
      ds.payloadLength + ds.startByte = ds.stopByte + 1 ∧
      ds.stopByte + 1 ≤ offset + block.length := by
  induction parts generalizing offset block with
  | nil => cases hds
  | cons p rest ih =>
    obtain ⟨hred, -, hgreen, hstart, hne, hlen, hstop, tail, rfl, hrest⟩ := h
    have hpos := List.length_pos_iff.mpr hne
    rcases List.mem_cons.mp hds with rfl | hds
    · refine ⟨hred, hgreen, by omega, by omega, ?_⟩
      rw [List.length_append]
      omega
    · obtain ⟨h₁, h₂, h₃, h₄, h₅⟩ := ih hrest hds
      refine ⟨h₁, h₂, h₃, h₄, ?_⟩
      rw [List.length_append]
      omega

theorem sorted (h : Partitions offset parts block) :
    parts.Pairwise (fun a b => a.stopByte < b.startByte) := by
  induction parts generalizing offset block with
  | nil => exact List.Pairwise.nil
  | cons p rest ih =>
    obtain ⟨-, -, -, -, -, -, hstop, tail, -, hrest⟩ := h
    refine List.pairwise_cons.mpr ⟨fun q hq => ?_, ih hrest⟩
    have := hrest.start_ge hq
    omega

/-- The flagged segment is the one that ends the block. -/
theorem eob_iff (h : Partitions offset parts block) (hds : ds ∈ parts) :
    ds.isRedEndofblock = true ↔ ds.stopByte + 1 = offset + block.length := by
  induction parts generalizing offset block with
  | nil => cases hds
  | cons p rest ih =>
    obtain ⟨-, hflag, -, -, -, -, hstop, tail, rfl, hrest⟩ := h
    rw [List.length_append]
    rcases List.mem_cons.mp hds with rfl | hds
    · rw [hflag, List.isEmpty_iff]
      cases rest with
      | nil =>
        have : tail = [] := hrest
        simp only [this, List.length_nil, true_iff]
        omega
      | cons q rest =>
        have hq := hrest.shape (List.mem_cons_self (a := q) (l := rest))
        have := hrest.start_ge (List.mem_cons_self (a := q) (l := rest))
        simp only [reduceCtorEq, false_iff]
        omega
    · rw [ih hrest hds]
      omega

theorem flatten (h : Partitions offset parts block) :
    (parts.map (·.payload)).flatten = block := by
  induction parts generalizing offset block with
  | nil => exact h.symm
  | cons p rest ih =>
    obtain ⟨-, -, -, -, -, -, -, tail, rfl, hrest⟩ := h
    rw [List.map_cons, List.flatten_cons, ih hrest]

/-- Every byte of the block lies in a segment. -/
theorem covers (h : Partitions offset parts block) {x : ℕ} (hlo : offset ≤ x)
    (hhi : x < offset + block.length) : ∃ p ∈ parts, p.startByte ≤ x ∧ x ≤ p.stopByte := by
  induction parts generalizing offset block with
  | nil =>
    have hnil : block = [] := h
    rw [hnil, List.length_nil] at hhi
    omega
  | cons p rest ih =>
    obtain ⟨-, -, -, hstart, -, -, hstop, tail, rfl, hrest⟩ := h
    rw [List.length_append] at hhi
    by_cases hx : x ≤ p.stopByte
    · exact ⟨p, List.mem_cons_self, by omega, hx⟩
    · obtain ⟨q, hq, hqx⟩ := ih hrest (by omega) (by omega)
      exact ⟨q, List.mem_cons_of_mem _ hq, hqx⟩

theorem sum (h : Partitions offset parts block) :
    (parts.map (·.payloadLength)).sum = block.length := by
  induction parts generalizing offset block with
  | nil =>
    have hnil : block = [] := h
    simp [hnil]
  | cons p rest ih =>
    obtain ⟨-, -, -, -, -, hlen, -, tail, rfl, hrest⟩ := h
    rw [List.map_cons, List.sum_cons, ih hrest, hlen, List.length_append]

/-- Two segments that share a byte are one. -/
theorem eq_of_meet (h : Partitions offset parts block) {p q : LTPDataSegment} (hp : p ∈ parts)
    (hq : q ∈ parts) (hpq : p.startByte ≤ q.stopByte) (hqp : q.startByte ≤ p.stopByte) : p = q := by
  induction parts generalizing offset block with
  | nil => cases hp
  | cons r rest ih =>
    have hs := List.pairwise_cons.mp h.sorted
    obtain ⟨-, -, -, -, -, -, -, tail, -, hrest⟩ := h
    rcases List.mem_cons.mp hp with rfl | hp' <;> rcases List.mem_cons.mp hq with rfl | hq'
    · rfl
    · have := hs.1 q hq'
      omega
    · have := hs.1 p hp'
      omega
    · exact ih hrest hp' hq'

end Partitions

/-! ## The session that collects them -/

/-- Before the hand-over, the session holds exactly the segments that arrived. -/
structure Assembled (n : ℕ) (s : LTPSession) (past : List LTPDataSegment) : Prop where
  consistent : Consistent s (receivedBytes past)
  within : Within s
  segments : ∀ k es, s.redSegments.find? k = some es ↔ es ∈ past ∧ es.startByte = k
  expected_le : s.expectedRedBytes ≤ n
  eob : s.redEobReceived = true ↔ ∃ p ∈ past, p.isRedEndofblock = true
  complete : s.redComplete = true ↔ ∃ p ∈ past, p.isRedEndofblock = true
  expected : (∃ p ∈ past, p.isRedEndofblock = true) → s.expectedRedBytes = n

theorem Assembled.new (n engineId sessionId : ℕ) : Assembled n (.new engineId sessionId) [] where
  consistent := by simpa [receivedBytes] using Consistent.new engineId sessionId
  within := .new engineId sessionId
  segments k es := by simp [LTPSession.new]
  expected_le := Nat.zero_le n
  eob := by simp [LTPSession.new]
  complete := by simp [LTPSession.new]
  expected h := by simp at h

/-- A segment none of whose bytes was received merges and settles, and meets nothing stored. -/
theorem Consistent.apart (h : Consistent s S) (hds : IncomingRed ds)
    (hnew : ∀ x, ds.startByte ≤ x → x ≤ ds.stopByte → x ∉ S) :
    Mergeable s.redContigBlocks ds.startByte ds.stopByte ∧
      s.redSegments.find? ds.startByte = none ∧
      Settles s.redSegments ds.startByte ds.stopByte ∧
      ∀ k es, s.redSegments.find? k = some es → es.stopByte < ds.startByte ∨ ds.stopByte < k := by
  have hord := hds.2.ordered
  have hout : ∀ k es, s.redSegments.find? k = some es →
      es.stopByte < ds.startByte ∨ ds.stopByte < k := by
    intro k es hk
    have hne := h.segments.nonempty hk
    by_contra hmeet
    exact hnew (max k ds.startByte) (le_max_right _ _) (by omega)
      (h.stored ⟨k, es, hk, le_max_left _ _, by omega⟩)
  have hblock : ∀ a b, s.redContigBlocks.find? a = some b → b < ds.startByte ∨ ds.stopByte < a := by
    intro a b hab
    have := h.blocks.ordered hab
    by_contra hmeet
    exact hnew (max a ds.startByte) (le_max_right _ _) (by omega)
      (h.blocks.mem hab (le_max_left _ _) (by omega))
  refine ⟨Or.inl ⟨fun a b hab ha => ?_, fun b c hbc hsb hbs => ?_⟩, ?_, fun k es hk => ?_, hout⟩
  · have := hblock a b hab
    omega
  · have := hblock b c hbc
    have := h.blocks.ordered hbc
    omega
  · cases hk : s.redSegments.find? ds.startByte with
    | none => rfl
    | some es =>
      have := hout _ es hk
      have := h.segments.nonempty hk
      omega
  · have := hout k es hk
    have := h.segments.nonempty hk
    exact ⟨fun _ => by omega, fun _ _ => by omega⟩

/-- Such a segment is stored as it came. -/
theorem receiveRed_apart (h : Consistent s S) (hds : IncomingRed ds)
    (hnew : ∀ x, ds.startByte ≤ x → x ≤ ds.stopByte → x ∉ S) :
    ∃ c, receiveRed s ds = .ok ⟨0, if ds.isEndofblock then
        setEob (((s.noteRedEob ds).setContig c).storeTrimmed s.redSegments ds) ds
        else ((s.noteRedEob ds).setContig c).storeTrimmed s.redSegments ds, ds⟩ := by
  obtain ⟨hmerge, hstart, hset, hout⟩ := h.apart hds hnew
  obtain ⟨c, m, ds', ht, hadd, -⟩ := addSegmentIncoming_settles h hds hmerge hstart hset
  obtain ⟨rfl, rfl⟩ := ht.untouched hout
  refine ⟨c, ?_⟩
  unfold receiveRed
  rw [hadd]
  by_cases he : ds'.isEndofblock = true
  · simp [bind, Except.bind, he]
  · simp [bind, Except.bind, he]

variable {parts past : List LTPDataSegment} {block : List UInt8}

theorem Partitions.incoming (h : Partitions 0 parts block) (hn : block.length < 2 ^ 64)
    (hds : ds ∈ parts) : IncomingRed ds := by
  obtain ⟨hred, -, hord, hlen, hstop⟩ := h.shape hds
  exact ⟨hred, hlen, hord, by omega⟩

/-- A copy of an arrived segment is a duplicate and changes nothing. -/
theorem Assembled.copy (h : Partitions 0 parts block) (hn : block.length < 2 ^ 64)
    (ha : Assembled block.length s past) (hds : ds ∈ parts) (hold : ds ∈ past) :
    ∃ r, receiveRed s ds = .ok r ∧ r.status = -1 ∧
      Assembled block.length r.session (past ++ [ds]) := by
  have hin := h.incoming hn hds
  have hr : Repeats s.redContigBlocks ds.startByte ds.stopByte :=
    ha.consistent.blocks.inside hin.2.ordered fun x h₁ h₂ => ⟨ds, hold, h₁, h₂⟩
  have hmem : ∀ es, es ∈ past ++ [ds] ↔ es ∈ past := by
    intro es
    simp only [List.mem_append, List.mem_singleton]
    exact ⟨fun hes => hes.elim id fun heq => heq ▸ hold, Or.inl⟩
  refine ⟨⟨-1, s.noteRedEob ds, ds⟩, ?_, rfl, ?_⟩
  · unfold receiveRed
    rw [addSegmentIncoming_repeats ha.consistent hin hr]
    rfl
  · have hrec : receivedBytes (past ++ [ds]) = extend (receivedBytes past) ds :=
      receivedBytes_append past ds
    refine ⟨?_, ha.within, ?_, ha.expected_le, ?_, ?_, ?_⟩
    · rw [hrec]
      exact (ha.consistent.noteRedEob ds).repeats hr
    · intro k es
      rw [hmem]
      exact ha.segments k es
    · simp only [hmem, LTPSession.noteRedEob, Bool.or_eq_true, ha.eob]
      exact ⟨fun hes => hes.elim id fun he => ⟨ds, hold, he⟩, Or.inl⟩
    · simp only [hmem]
      exact ha.complete
    · simp only [hmem]
      exact ha.expected

/-- A segment that arrives for the first time is stored. -/
theorem Assembled.fresh (h : Partitions 0 parts block) (hn : block.length < 2 ^ 64)
    (ha : Assembled block.length s past) (hpast : ∀ p ∈ past, p ∈ parts) (hds : ds ∈ parts)
    (hnew : ds ∉ past) :
    ∃ r, receiveRed s ds = .ok r ∧ r.status = 0 ∧
      Assembled block.length r.session (past ++ [ds]) := by
  have hin := h.incoming hn hds
  obtain ⟨-, hgreen, hord, hlen, hstop⟩ := h.shape hds
  have hother : ∀ p ∈ past, ds.startByte ≤ p.stopByte → p.startByte ≤ ds.stopByte → False :=
    fun p hp h₁ h₂ => hnew (h.eq_of_meet hds (hpast p hp) h₁ h₂ ▸ hp)
  have hout : ∀ x, ds.startByte ≤ x → x ≤ ds.stopByte → x ∉ receivedBytes past := by
    rintro x h₁ h₂ ⟨p, hp, h₃, h₄⟩
    exact hother p hp (h₁.trans h₄) (h₃.trans h₂)
  have heob : ds.isEndofblock = ds.isRedEndofblock := by
    simp [LTPSegment.isEndofblock, hgreen]
  have hflag := h.eob_iff hds
  obtain ⟨hmerge, hstart, hset, -⟩ := ha.consistent.apart hin hout
  obtain ⟨c, hrec⟩ := receiveRed_apart ha.consistent hin hout
  have haccept : AcceptsEob s ds := Or.inr ⟨hmerge, Or.inr ⟨hset, fun he => by
    have := hflag.mp (heob ▸ he)
    have := ha.expected_le
    omega⟩⟩
  obtain ⟨r, hr, hcons, hwithin⟩ := receiveRed_accepts ha.consistent ha.within hin haccept
  have hsame := Except.ok.inj (hr.symm.trans hrec)
  have hseg : r.session.redSegments = s.redSegments.insert ds.startByte ds := by
    rw [hsame]
    split_ifs
    · rw [setEob_red hin]
      rfl
    · rfl
  have hexp : r.session.expectedRedBytes = if ds.isRedEndofblock then ds.stopByte + 1 else
      if s.expectedRedBytes < ds.stopByte + 1 then ds.stopByte + 1 else s.expectedRedBytes := by
    rw [hsame, heob]
    split_ifs with h₁ h₂ <;>
      simp_all [setEob_red hin, LTPSession.storeTrimmed, LTPSession.storeRed,
        LTPSession.setContig, LTPSession.noteRedEob, u64_of_lt hin.2.bound]
  have hnote : r.session.redEobReceived = (s.redEobReceived || ds.isRedEndofblock) := by
    rw [hsame]
    split_ifs
    · rw [setEob_red hin]
      rfl
    · rfl
  have hcomp : r.session.redComplete = (s.redComplete || ds.isRedEndofblock) := by
    rw [hsame, ← heob]
    split_ifs with he
    · rw [setEob_red hin, he, Bool.or_true]
    · rfl
  have hany : (∃ p ∈ past ++ [ds], p.isRedEndofblock = true) ↔
      (∃ p ∈ past, p.isRedEndofblock = true) ∨ ds.isRedEndofblock = true := by
    simp only [List.mem_append, List.mem_singleton, or_and_right, exists_or, exists_eq_left]
  refine ⟨r, hr, by rw [hsame], by rw [receivedBytes_append]; exact hcons, hwithin, ?_, ?_, ?_, ?_, ?_⟩
  · intro k es
    rw [hseg, OrdMap.find?_insert, List.mem_append, List.mem_singleton]
    split_ifs with hk
    · constructor
      · rintro ⟨⟩
        exact ⟨Or.inr rfl, hk.symm⟩
      · rintro ⟨hes | rfl, hstart'⟩
        · have := (h.shape (hpast es hes)).2.2.1
          exact (hother es hes (by omega) (by omega)).elim
        · rfl
    · rw [ha.segments]
      constructor
      · rintro ⟨hes, hstart'⟩
        exact ⟨Or.inl hes, hstart'⟩
      · rintro ⟨hes | rfl, hstart'⟩
        · exact ⟨hes, hstart'⟩
        · exact absurd hstart'.symm hk
  · have := ha.expected_le
    rw [hexp]
    split_ifs <;> omega
  · rw [hnote, hany, Bool.or_eq_true, ha.eob]
  · rw [hcomp, hany, Bool.or_eq_true, ha.complete]
  · rw [hany, hexp]
    rintro (hpast' | he)
    · have := ha.expected hpast'
      split_ifs with h₁ h₂
      · rw [hflag] at h₁
        omega
      · omega
      · exact this
    · rw [if_pos he, hflag.mp he, Nat.zero_add]

/-- All the segments of a partition, keyed by their first bytes. -/
def Partitions.toMap (h : Partitions 0 parts block) : OrdMap ℕ LTPDataSegment :=
  ⟨parts.map (fun p => (p.startByte, p)), by
    rw [List.pairwise_map]
    refine h.sorted.imp_of_mem fun {a b} ha _ hab => ?_
    exact lt_of_le_of_lt (h.shape ha).2.2.1 hab⟩

/-- Once every segment has arrived, the session holds the whole partition. -/
theorem Assembled.redSegments_eq (h : Partitions 0 parts block)
    (ha : Assembled block.length s past) (hpast : ∀ p ∈ past, p ∈ parts)
    (hall : ∀ p ∈ parts, p ∈ past) : s.redSegments = h.toMap := by
  ext1 k
  apply Option.ext
  intro es
  rw [ha.segments, OrdMap.find?_eq_some_iff]
  simp only [Partitions.toMap, List.mem_map, Prod.mk.injEq]
  constructor
  · rintro ⟨hes, hk⟩
    exact ⟨es, hpast es hes, hk, rfl⟩
  · rintro ⟨p, hp, hk, rfl⟩
    exact ⟨hall p hp, hk⟩

/-- The red part is full exactly when every segment has arrived. -/
theorem Assembled.isRedFull_eq (h : Partitions 0 parts block) (hpos : 1 ≤ block.length)
    (ha : Assembled block.length s past) (hpast : ∀ p ∈ past, p ∈ parts) :
    isRedFull s = if ∀ p ∈ parts, p ∈ past then block.length else 0 := by
  split_ifs with hall
  · obtain ⟨p, hp, -, hlast⟩ := h.covers (x := block.length - 1) (Nat.zero_le _) (by omega)
    have hflag : p.isRedEndofblock = true := by
      rw [h.eob_iff hp]
      have := (h.shape hp).2.2.2.2
      omega
    have hany : ∃ p ∈ past, p.isRedEndofblock = true := ⟨p, hall p hp, hflag⟩
    have hbytes : s.redBytesReceived = block.length := by
      rw [ha.consistent.count, ha.redSegments_eq h hpast hall, ← h.sum]
      simp only [OrdMap.sum, Partitions.toMap, List.map_map]
      rfl
    unfold isRedFull
    rw [ha.eob.mpr hany, ha.complete.mpr hany, ha.consistent.live, ha.expected hany, hbytes]
    simp
  · by_contra hfull
    have hdone := ha.consistent.complete ha.within hfull
    have hany : ∃ p ∈ past, p.isRedEndofblock = true := by
      rw [← ha.eob]
      unfold isRedFull at hfull
      by_contra hno
      simp [hno] at hfull
    refine hall fun p hp => ?_
    obtain ⟨-, -, hord, -, hstop⟩ := h.shape hp
    obtain ⟨k, es, hk, h₁, h₂⟩ := hdone.covers p.startByte (by
      have := ha.expected hany
      omega)
    obtain ⟨hes, -⟩ := (ha.segments k es).mp hk
    obtain rfl := h.eq_of_meet (hpast es hes) hp (h₁.trans hord) h₂
    exact hes

/-- A full red part is handed over as the block. -/
theorem Assembled.getAllRedData (h : Partitions 0 parts block) (hpos : 1 ≤ block.length)
    (ha : Assembled block.length s past) (hpast : ∀ p ∈ past, p ∈ parts)
    (hfull : isRedFull s ≠ 0) :
    ∃ m, getAllRedData s = .ok (m, { s with redProcessed := true }) ∧
      (m.values.map (·.payload)).flatten = block := by
  have hall : ∀ p ∈ parts, p ∈ past := by
    by_contra hno
    rw [ha.isRedFull_eq h hpos hpast, if_neg hno] at hfull
    exact hfull rfl
  refine ⟨s.redSegments, ?_, ?_⟩
  · unfold Ltp.getAllRedData
    rw [if_pos (Nat.pos_of_ne_zero hfull)]
  · have hvalues : h.toMap.values = parts := by
      simp [OrdMap.values, Partitions.toMap, Function.comp_def]
    rw [ha.redSegments_eq h hpast hall, hvalues, h.flatten]

/-! ## Arrivals -/

/-- One arrival; a full red part is handed over unless the receiver refuses it. -/
def deliverStep (s : LTPSession) (a : LTPDataSegment × Bool) : Except Fault LTPSession := do
  let r ← receiveRed s a.1
  if r.status ≠ -1 ∧ isRedFull r.session ≠ 0 ∧ a.2 then
    let t ← getAllRedData r.session
    .ok t.2
  else .ok r.session

/-- Either the session is still collecting, or everything has been handed over. -/
def Delivering (parts : List LTPDataSegment) (n : ℕ) (s : LTPSession)
    (past : List (LTPDataSegment × Bool)) : Prop :=
  (∀ a ∈ past, a.1 ∈ parts) ∧
    (Assembled n s (past.map Prod.fst) ∨
      (s.redProcessed = true ∧ ∀ p ∈ parts, p ∈ past.map Prod.fst))

theorem receiveRed_processed (hs : s.redProcessed = true) (ds : LTPDataSegment) :
    receiveRed s ds = .ok ⟨-1, s, ds⟩ := by
  simp [receiveRed, addSegmentIncoming, hs, bind, Except.bind]

/-- What one arrival answers, as far as the claims on order go. -/
theorem Delivering.receive (h : Partitions 0 parts block) (hn : block.length < 2 ^ 64)
    {past : List (LTPDataSegment × Bool)} (hd : Delivering parts block.length s past)
    (hds : ds ∈ parts) :
    ∃ r, receiveRed s ds = .ok r ∧
      r.status = (if ds ∈ past.map Prod.fst then -1 else 0) ∧
      (Assembled block.length r.session (past.map Prod.fst ++ [ds]) ∨
        (r.session.redProcessed = true ∧ ∀ p ∈ parts, p ∈ past.map Prod.fst)) := by
  obtain ⟨hpast, ha | ⟨hproc, hall⟩⟩ := hd
  · have hpast' : ∀ p ∈ past.map Prod.fst, p ∈ parts := by
      intro p hp
      obtain ⟨a, ha, rfl⟩ := List.mem_map.mp hp
      exact hpast a ha
    by_cases hold : ds ∈ past.map Prod.fst
    · obtain ⟨r, hr, hst, ha'⟩ := ha.copy h hn hds hold
      exact ⟨r, hr, by rw [if_pos hold, hst], Or.inl ha'⟩
    · obtain ⟨r, hr, hst, ha'⟩ := ha.fresh h hn hpast' hds hold
      exact ⟨r, hr, by rw [if_neg hold, hst], Or.inl ha'⟩
  · exact ⟨_, receiveRed_processed hproc ds, by rw [if_pos (hall ds hds)], Or.inr ⟨hproc, hall⟩⟩

theorem deliverStep_delivering (h : Partitions 0 parts block) (hpos : 1 ≤ block.length)
    (hn : block.length < 2 ^ 64) {past : List (LTPDataSegment × Bool)}
    (hd : Delivering parts block.length s past) {a : LTPDataSegment × Bool} (ha : a.1 ∈ parts) :
    ∃ s', deliverStep s a = .ok s' ∧ Delivering parts block.length s' (past ++ [a]) := by
  obtain ⟨r, hr, -, hinv⟩ := hd.receive h hn ha
  have hpast : ∀ b ∈ past ++ [a], b.1 ∈ parts := by
    intro b hb
    rcases List.mem_append.mp hb with hb | hb
    · exact hd.1 b hb
    · exact List.mem_singleton.mp hb ▸ ha
  have hmap : (past ++ [a]).map Prod.fst = past.map Prod.fst ++ [a.1] := by simp
  have hpast' : ∀ p ∈ past.map Prod.fst ++ [a.1], p ∈ parts := by
    intro p hp
    rw [← hmap] at hp
    obtain ⟨b, hb, rfl⟩ := List.mem_map.mp hp
    exact hpast b hb
  unfold deliverStep
  simp only [hr, bind, Except.bind]
  split_ifs with hfull
  · rcases hinv with hasm | ⟨hproc, -⟩
    · obtain ⟨m, hget, -⟩ := hasm.getAllRedData h hpos hpast' hfull.2.1
      rw [hget]
      refine ⟨_, rfl, hpast, Or.inr ⟨rfl, ?_⟩⟩
      rw [hmap]
      by_contra hno
      rw [hasm.isRedFull_eq h hpos hpast', if_neg hno] at hfull
      exact hfull.2.1 rfl
    · simp [isRedFull, hproc] at hfull
  · refine ⟨_, rfl, hpast, ?_⟩
    rw [hmap]
    exact hinv.imp id fun hp => ⟨hp.1, fun p hmem => List.mem_append_left _ (hp.2 p hmem)⟩

/-- The red part fills with the last missing segment, every other copy is a duplicate, and the
segments handed over spell the block, in every order of arrival. -/
theorem delivery_in_any_order (engineId sessionId : ℕ) (parts : List LTPDataSegment)
    (block : List UInt8) (h : Partitions 0 parts block) (hpos : 1 ≤ block.length)
    (hn : block.length < 2 ^ 64) (past : List (LTPDataSegment × Bool))
    (hpast : ∀ a ∈ past, a.1 ∈ parts) (ds : LTPDataSegment) (hds : ds ∈ parts) :
    ∃ s r, run deliverStep (.new engineId sessionId) past = .ok s ∧ receiveRed s ds = .ok r ∧
      r.status = (if ds ∈ past.map Prod.fst then -1 else 0) ∧
      ((∃ p ∈ parts, p ∉ past.map Prod.fst) → isRedFull s = 0 ∧
        isRedFull r.session =
          if ∀ p ∈ parts, p ∈ past.map Prod.fst ++ [ds] then block.length else 0) ∧
      (isRedFull r.session ≠ 0 → isRedFull r.session = block.length ∧
        ∃ m s', getAllRedData r.session = .ok (m, s') ∧
          (m.values.map (·.payload)).flatten = block) := by
  obtain ⟨s, hrun, hd⟩ := run_invariant (P := fun _ a => a.1 ∈ parts)
    (Delivering parts block.length)
    (fun s past a hd ha => deliverStep_delivering h hpos hn hd ha)
    ⟨by simp, Or.inl (.new block.length engineId sessionId)⟩
    (Meets.of_forall (LTPSession.new engineId sessionId) hpast)
  obtain ⟨r, hr, hst, hinv⟩ := hd.receive h hn hds
  have hfst : ∀ p ∈ past.map Prod.fst, p ∈ parts := by
    intro p hp
    obtain ⟨a, ha, rfl⟩ := List.mem_map.mp hp
    exact hpast a ha
  have hfst' : ∀ p ∈ past.map Prod.fst ++ [ds], p ∈ parts := by
    intro p hp
    rcases List.mem_append.mp hp with hp | hp
    · exact hfst p hp
    · exact List.mem_singleton.mp hp ▸ hds
  refine ⟨s, r, hrun, hr, hst, ?_, ?_⟩
  · rintro ⟨p, hp, hmiss⟩
    have hnot : ¬ ∀ p ∈ parts, p ∈ past.map Prod.fst := fun hall => hmiss (hall p hp)
    have hasm := hd.2.resolve_right fun hproc => hnot hproc.2
    have hasm' := hinv.resolve_right fun hproc => hnot hproc.2
    refine ⟨?_, hasm'.isRedFull_eq h hpos hfst'⟩
    rw [hasm.isRedFull_eq h hpos hfst, if_neg hnot]
  · intro hfull
    have hasm : Assembled block.length r.session (past.map Prod.fst ++ [ds]) := by
      refine hinv.resolve_right fun hproc => hfull ?_
      simp [isRedFull, hproc.1]
    obtain ⟨m, hget, hflat⟩ := hasm.getAllRedData h hpos hfst' hfull
    refine ⟨?_, m, _, hget, hflat⟩
    rw [hasm.isRedFull_eq h hpos hfst'] at hfull ⊢
    rw [if_pos (by_contra fun hno => hfull (if_neg hno))]

/-- A block of six bytes in three segments. -/
def threePieces : List LTPDataSegment :=
  [{ redSegment 0 1 false with payload := [7, 8] }, { redSegment 2 2 false with payload := [9] },
    { redSegment 3 5 true with payload := [10, 11, 12] }]

theorem threePieces_partitions : Partitions 0 threePieces [7, 8, 9, 10, 11, 12] :=
  ⟨rfl, rfl, rfl, rfl, by decide, rfl, rfl, [9, 10, 11, 12], rfl,
    rfl, rfl, rfl, rfl, by decide, rfl, rfl, [10, 11, 12], rfl,
    rfl, rfl, rfl, rfl, by decide, rfl, rfl, [], rfl, rfl⟩

/-- The last segment arrives first and twice, the middle one last. -/
theorem delivery_in_any_order_threePieces :
    ∃ s r, run deliverStep (.new 1 1) [(threePieces[2], true), (threePieces[0], true),
        (threePieces[2], true)] = .ok s ∧ receiveRed s threePieces[1] = .ok r ∧
      r.status = 0 ∧ isRedFull s = 0 ∧ isRedFull r.session = 6 ∧
      ∃ m s', getAllRedData r.session = .ok (m, s') ∧
        (m.values.map (·.payload)).flatten = [7, 8, 9, 10, 11, 12] := by
  obtain ⟨s, r, hs, hr, hst, hmiss, hfull⟩ := delivery_in_any_order 1 1 threePieces
    [7, 8, 9, 10, 11, 12] threePieces_partitions (by decide) (by decide)
    [(threePieces[2], true), (threePieces[0], true), (threePieces[2], true)] (by decide)
    threePieces[1] (by decide)
  obtain ⟨hzero, hsix⟩ := hmiss ⟨threePieces[1], by decide, by decide⟩
  have hsix : isRedFull r.session = 6 := hsix.trans (by decide)
  obtain ⟨-, hget⟩ := hfull (by omega)
  exact ⟨s, r, hs, hr, hst.trans (by decide), hzero, hsix, hget⟩

end Dtnme.Ltp
