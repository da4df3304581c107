import Dtnme.Bundling.AcsEntries

/-! # Round trip of an aggregate custody signal

The bytes of chained entries are read back entry by entry: each left edge is the right
edge before it plus the difference. A pending signal that stands for a set of custody ids
is built and parsed without loss as long as its length fits the `int` that holds it.
-/

namespace Dtnme.Bundling
open Library

variable {r : ℕ}

/-! ## Parsing what was written -/

/-- The bytes of a number at the front of the buffer. -/
theorem decode_front {val : ℕ} (h64 : val < 2 ^ 64) (rest : List UInt8) :
    (decode (memOf (encodeLoop maxLength 0 val [] ++ rest) 0) 0
      (encodeLoop maxLength 0 val [] ++ rest).length).result = some (val, encodingLen val) := by
  apply decode_encode h64
  · exact (holds_append.mp (holds_memOf _ _)).1
  · rw [List.length_append, length_encodeLoop h64]
    omega

theorem drop_front {val : ℕ} (h64 : val < 2 ^ 64) (rest : List UInt8) :
    (encodeLoop maxLength 0 val [] ++ rest).drop (encodingLen val) = rest := by
  rw [← length_encodeLoop h64, List.drop_left]

theorem wireOf_cons (e : AcsEntry) (l : List AcsEntry) :
    wireOf (e :: l) = encodeLoop maxLength 0 e.diffToPrevRightEdge [] ++
      (encodeLoop maxLength 0 e.lengthOfFill [] ++ wireOf l) := by
  rw [wireOf, List.flatMap_cons, List.append_assoc]
  rfl

/-- A fill as the parser stores it. -/
def parsedFill (e : AcsEntry) : ℕ × (ℕ × ℕ) := (e.leftEdge, (e.leftEdge, e.lengthOfFill))

/-- Chained entries come back in order, behind those already parsed. -/
theorem parseEntries_wireOf {l : List AcsEntry} (hl : Chained r l) {fuel : ℕ}
    (hfuel : (wireOf l).length ≤ fuel) {m : OrdMap ℕ (ℕ × ℕ)} (hm : ∀ p ∈ m.entries, p.1 ≤ r) :
    ∃ m', parseEntries fuel (wireOf l) r m = some m' ∧
      m'.entries = m.entries ++ l.map parsedFill := by
  induction l generalizing r fuel m with
  | nil =>
    refine ⟨m, ?_, by simp⟩
    cases fuel <;> simp [parseEntries, wireOf]
  | cons e l ih =>
    obtain ⟨hr, hfill, hbound, hdiff, -, hl⟩ := hl
    have h₁ := length_encodeLoop (show e.diffToPrevRightEdge < 2 ^ 64 by omega)
    have h₂ := length_encodeLoop (show e.lengthOfFill < 2 ^ 64 by omega)
    have hpos₁ := encodingLen_pos e.diffToPrevRightEdge
    have hpos₂ := encodingLen_pos e.lengthOfFill
    rw [wireOf_cons] at hfuel ⊢
    rw [List.length_append, List.length_append, h₁, h₂] at hfuel
    obtain ⟨fuel, rfl⟩ := Nat.exists_eq_add_one.mpr (show 0 < fuel by omega)
    have hfree : m.find? e.leftEdge = none := by
      rw [OrdMap.find?_eq_none_iff]
      intro v hv
      have := hm _ hv
      omega
    have hput : (m.insert e.leftEdge (e.leftEdge, e.lengthOfFill)).entries =
        m.entries ++ [parsedFill e] :=
      OrdMap.entries_insert_last fun p hp => by
        have := hm p hp
        omega
    obtain ⟨m', hparse, hentries⟩ := ih hl (m := m.insert e.leftEdge (e.leftEdge, e.lengthOfFill))
      (show (wireOf l).length ≤ fuel by omega) (by
        intro p hp
        rw [hput, List.mem_append, List.mem_singleton] at hp
        rcases hp with hp | rfl
        · have := hm p hp
          omega
        · rw [parsedFill]
          omega)
    refine ⟨m', ?_, ?_⟩
    · have hleft : r + e.diffToPrevRightEdge = e.leftEdge := by omega
      rw [parseEntries, if_neg (by rw [List.length_append, h₁]; omega),
        decode_front (by omega)]
      simp only
      rw [drop_front (by omega), decode_front (by omega)]
      simp only
      rw [drop_front (by omega), hleft, u64_of_lt (show e.leftEdge < 2 ^ 64 by omega),
        if_neg (by omega), u64Sub_of_le (show 2 ^ 64 - 1 < 2 ^ 64 by omega) (by omega),
        u64_of_lt (show 2 ^ 64 - 1 - e.leftEdge + 1 < 2 ^ 64 by omega), if_neg (by omega),
        u64Sub_of_le (show e.lengthOfFill < 2 ^ 64 by omega) hfill, u64_of_lt (by omega),
        show e.leftEdge + (e.lengthOfFill - 1) = e.leftEdge + e.lengthOfFill - 1 by omega,
        hfree, if_neg (by simp), hparse]
    · rw [hentries, hput, List.append_assoc, List.map_cons, List.singleton_append]

theorem statusByte_toNat (succeeded : Bool) (reason : ℕ) :
    (statusByte succeeded reason).toNat = (if succeeded then 0x80 else 0) + reason % 0x80 := by
  rw [statusByte, UInt8.toNat_ofNat']
  split_ifs <;> omega

/-! ## The whole signal -/

/-- The fields of a pending signal that stand for a set of custody ids. -/
structure Represents (pacs : PendingAcs) (S : Finset ℕ) : Prop where
  entries : EntriesOf pacs.acsEntryMap S
  payload : pacs.acsPayloadLength = pacs.acsEntryMap.sum (·.sdnvLength)
  count : pacs.numCustodyIds = u32 S.card

/-- The bytes of the signal of a pending signal. -/
def acsPayload (pacs : PendingAcs) : List UInt8 :=
  0x40 :: statusByte pacs.succeeded pacs.reason :: wireOf pacs.acsEntryMap.values

def signalOf (pacs : PendingAcs) : AcsSignal :=
  { bpVersion := 6, dest := some pacs.custodyEid, succeeded := pacs.succeeded
    reason := pacs.reason, fills := fillsOf pacs.acsEntryMap, payload := acsPayload pacs }

/-- The signal is built, and parsing it gives the flag, the reason and the fills back. -/
def RoundTrips (pacs : PendingAcs) : Prop :=
  ∃ signal data, createAggregateCustodySignal pacs = .ok (some signal) ∧
    signal.payload.length = 2 + pacs.acsPayloadLength ∧
    parseAggregateCustodySignal signal.payload = some data ∧
    data.succeeded = pacs.succeeded ∧ data.reason = pacs.reason % 2 ^ 7 ∧
    data.entries.values = fillsOf pacs.acsEntryMap

namespace Represents

variable {pacs : PendingAcs} {S : Finset ℕ}

/-- The bytes of the entries, and their number. -/
theorem encodeEntries_eq (h : Represents pacs S) {n : ℤ} (hlen : pacs.acsPayloadLength ≤ n)
    (hbig : n < 2 ^ 64) :
    encodeEntries pacs.acsEntryMap.values 0 n = .ok (wireOf pacs.acsEntryMap.values) ∧
      (wireOf pacs.acsEntryMap.values).length = pacs.acsPayloadLength := by
  have hsum : (pacs.acsEntryMap.values.map (·.sdnvLength)).sum = pacs.acsPayloadLength := by
    rw [h.payload, OrdMap.sum, OrdMap.values, List.map_map]
    rfl
  rw [← hsum] at hlen ⊢
  exact encodeEntries_chained h.entries.chained hlen hbig

/-- The signal of a represented set. -/
theorem create_eq (h : Represents pacs S) (heid : pacs.custodyEid ≠ nullEid)
    (hroom : pacs.acsPayloadLength + 2 < 2 ^ 31) :
    createAggregateCustodySignal pacs = .ok (some (signalOf pacs)) := by
  obtain ⟨hbytes, -⟩ := h.encodeEntries_eq (n := pacs.acsPayloadLength) le_rfl (by omega)
  rw [createAggregateCustodySignal, i32_of_lt hroom, if_neg heid, if_neg (by omega),
    if_neg (by omega), Nat.cast_add, Nat.cast_ofNat, add_sub_cancel_right, hbytes]
  rfl

/-- A signal of 2^31 bytes or more asks for a buffer of negative length. -/
theorem create_of_long (heid : pacs.custodyEid ≠ nullEid) (hlong : 2 ^ 31 ≤ pacs.acsPayloadLength + 2)
    (hword : pacs.acsPayloadLength + 2 < 2 ^ 32) :
    createAggregateCustodySignal pacs = .error .panic := by
  have hneg : i32 (pacs.acsPayloadLength + 2) < 0 := by
    unfold i32 u32
    split_ifs <;> omega
  rw [createAggregateCustodySignal, if_neg heid, if_pos hneg]

/-- A represented set with a member has an entry. -/
theorem values_ne_nil (h : Represents pacs S) (hne : S.Nonempty) : pacs.acsEntryMap.values ≠ [] := by
  obtain ⟨x, hx⟩ := hne
  obtain ⟨k, e, hf, -⟩ := h.entries.covered hx
  have hmem := OrdMap.find?_eq_some_iff.mp hf
  intro hnil
  rw [OrdMap.values, List.map_eq_nil_iff] at hnil
  rw [hnil] at hmem
  cases hmem

/-- The fills come back from the bytes. -/
theorem parse_payload (h : Represents pacs S) (hne : S.Nonempty) :
    ∃ m, parseAggregateCustodySignal (acsPayload pacs) =
        some ⟨pacs.succeeded, pacs.reason % 2 ^ 7, m⟩ ∧ m.values = fillsOf pacs.acsEntryMap := by
  obtain ⟨m, hparse, hentries⟩ := parseEntries_wireOf h.entries.chained le_rfl
    (m := OrdMap.empty) (by simp [OrdMap.empty])
  rw [OrdMap.empty, List.nil_append] at hentries
  have hstatus := statusByte_toNat pacs.succeeded pacs.reason
  have hsize : m.size ≠ 0 := by
    rw [OrdMap.size, hentries, List.length_map, Ne, List.length_eq_zero_iff]
    exact h.values_ne_nil hne
  refine ⟨m, ?_, ?_⟩
  · rw [acsPayload, parseAggregateCustodySignal, if_neg (by decide), hparse]
    simp only
    rw [if_neg hsize, hstatus]
    congr 2
    · cases pacs.succeeded <;> simp
    · split_ifs <;> omega
  · rw [OrdMap.values, hentries, List.map_map, fillsOf]
    rfl

end Represents

/-- Building and parsing a signal that fits an `int` loses nothing. -/
theorem parseAggregateCustodySignal_create {pacs : PendingAcs} {S : Finset ℕ}
    (h : Represents pacs S) (hne : S.Nonempty) (heid : pacs.custodyEid ≠ nullEid)
    (hroom : pacs.acsPayloadLength + 2 < 2 ^ 31) : RoundTrips pacs := by
  obtain ⟨-, hlength⟩ := h.encodeEntries_eq (n := pacs.acsPayloadLength) le_rfl (by omega)
  obtain ⟨m, hparse, hvalues⟩ := h.parse_payload hne
  refine ⟨_, _, h.create_eq heid hroom, ?_, hparse, rfl, rfl, hvalues⟩
  rw [signalOf, acsPayload, List.length_cons, List.length_cons, hlength]
  omega

/-! ## Every second id -/

/-- The runs of 2, 4, 6 and so on. -/
def evenEntries : ℕ → OrdMap ℕ AcsEntry
  | 0 => .empty
  | n + 1 => (evenEntries n).insert (2 * n + 2) ⟨2 * n + 2, 2, 1, 2⟩

def evenIds (n : ℕ) : Finset ℕ := (Finset.range n).image (fun i => 2 * i + 2)

def evenAcs (custodyEid : String) (n : ℕ) : PendingAcs :=
  { custodyEid, acsPayloadLength := 2 * n, numCustodyIds := u32 n, acsEntryMap := evenEntries n }

theorem evenIds_succ (n : ℕ) : evenIds (n + 1) = insert (2 * n + 2) (evenIds n) := by
  rw [evenIds, Finset.range_add_one, Finset.image_insert]
  rfl

theorem evenIds_lt {n x : ℕ} (hx : x ∈ evenIds n) : x + 1 < 2 * n + 2 := by
  obtain ⟨i, hi, rfl⟩ := Finset.mem_image.mp hx
  have := Finset.mem_range.mp hi
  omega

theorem card_evenIds (n : ℕ) : (evenIds n).card = n := by
  rw [evenIds, Finset.card_image_of_injective _ fun a b hab => by simpa using hab, Finset.card_range]

theorem below_evenIds (n : ℕ) : below (evenIds n) (2 * n + 2) = 2 * n := by
  refine below_eq (fun x hx _ => by have := evenIds_lt hx; omega) ?_
  cases n with
  | zero => exact Or.inl rfl
  | succ n =>
    refine Or.inr ⟨?_, by omega⟩
    rw [evenIds_succ]
    exact Finset.mem_insert_self _ _

/-- Every second id takes two bytes. -/
theorem represents_evenAcs (custodyEid : String) {n : ℕ} (hn : n < 2 ^ 63) :
    Represents (evenAcs custodyEid n) (evenIds n) := by
  induction n with
  | zero => exact ⟨EntriesOf.empty, rfl, congrArg u32 rfl⟩
  | succ n ih =>
    obtain ⟨hentries, hpayload, -⟩ := ih (by omega)
    simp only [evenAcs] at hentries hpayload
    have hnew : 2 * n + 2 ∉ evenIds n := fun hx => by
      have := evenIds_lt hx
      omega
    have hentry : entryAt (insert (2 * n + 2) (evenIds n)) (2 * n + 2) 1 =
        ⟨2 * n + 2, 2, 1, 2⟩ := by
      rw [entryAt_one, below_evenIds, Nat.add_sub_cancel_left,
        encodingLen_of_lt (show 2 < 128 by norm_num)]
    have hgrown := hentries.insertAtEnd (c := 2 * n + 2) (by omega) fun x hx => evenIds_lt hx
    rw [hentry] at hgrown
    rw [evenIds_succ]
    refine ⟨hgrown, ?_, congrArg u32 ?_⟩
    · simp only [evenAcs, evenEntries]
      rw [OrdMap.sum_insert _ (hentries.not_mem_find hnew), ← hpayload, Nat.mul_add, Nat.add_comm]
    · rw [Finset.card_insert_of_notMem hnew, card_evenIds]

theorem parseAggregateCustodySignal_create_even : RoundTrips (evenAcs "ipn:1.0" 2) :=
  parseAggregateCustodySignal_create (represents_evenAcs "ipn:1.0" (by norm_num))
    ⟨2, by decide⟩ (by decide) (by simp only [evenAcs]; norm_num)

/-- Nothing is parsed from an empty pending signal, nothing is built for a null custodian, and a
signal of 2^31 bytes or more is not built either. -/
theorem parseAggregateCustodySignal_create_fails :
    (Represents (evenAcs "ipn:1.0" 0) (evenIds 0) ∧ ¬ RoundTrips (evenAcs "ipn:1.0" 0)) ∧
    (Represents (evenAcs nullEid 1) (evenIds 1) ∧ ¬ RoundTrips (evenAcs nullEid 1)) ∧
    (Represents (evenAcs "ipn:1.0" (2 ^ 30)) (evenIds (2 ^ 30)) ∧
      ¬ RoundTrips (evenAcs "ipn:1.0" (2 ^ 30))) := by
  refine ⟨⟨represents_evenAcs _ (by norm_num), ?_⟩, ⟨represents_evenAcs _ (by norm_num), ?_⟩,
    represents_evenAcs _ (by norm_num), ?_⟩
  · rintro ⟨signal, data, hcreate, -, hparse, -⟩
    rw [(represents_evenAcs _ (by norm_num)).create_eq (by decide) (by decide)] at hcreate
    cases hcreate
    cases hparse
  · rintro ⟨signal, data, hcreate, -⟩
    rw [createAggregateCustodySignal, evenAcs, if_pos rfl] at hcreate
    cases hcreate
  · rintro ⟨signal, data, hcreate, -⟩
    rw [Represents.create_of_long (show "ipn:1.0" ≠ nullEid by decide)
      (show 2 ^ 31 ≤ 2 * 2 ^ 30 + 2 by norm_num) (show 2 * 2 ^ 30 + 2 < 2 ^ 32 by norm_num)] at hcreate
    cases hcreate

end Dtnme.Bundling
