import Dtnme.Library.CborItems
import Dtnme.Library.PrefixCode

/-! # Transfer extension items

The first segment of a transfer carries extension items: flags, a type, the length of the value
and the value. The receiver knows one type, the total length of the transfer; an item of another
type is only noted, and its value is not stepped over.
-/

namespace Dtnme.ConvLayers

open Library Library.Cbor

def tcpv4ExtensionFlagCritical : UInt8 := 1

def tcpv4ExtensionTypeTransferLength : ℕ := 1

/-- What the parser leaves to its caller. -/
structure Parsed where
  result : Bool
  criticalItemUnhandled : Bool
  extitmTransferLen : ℕ
  deriving DecidableEq, Repr

/-- The loop over the items, with what was found so far; every turn reads five bytes. -/
def parseItems : ℕ → List UInt8 → Bool → ℕ → Parsed
  | 0, _, critical, transferLen => ⟨false, critical, transferLen⟩
  | fuel + 1, buf, critical, transferLen =>
    if buf.length = 0 then ⟨true, critical, transferLen⟩
    else if buf.length < 5 then ⟨false, critical, transferLen⟩
    else
      let flags := buf.headD 0
      let itemType := ofBigEndian ((buf.drop 1).take 2)
      let itemLength := ofBigEndian ((buf.drop 3).take 2)
      let rest := buf.drop 5
      if rest.length < itemLength then ⟨false, critical, transferLen⟩
      else if itemType = tcpv4ExtensionTypeTransferLength then
        if transferLen ≠ 0 then ⟨false, critical, transferLen⟩
        else if itemLength ≠ 8 then ⟨false, critical, transferLen⟩
        else parseItems fuel (rest.drop 8) critical (ofBigEndian (rest.take 8))
      else parseItems fuel rest (critical || flags &&& tcpv4ExtensionFlagCritical != 0) transferLen

def parseXferSegmentExtensionItems (buf : List UInt8) : Parsed :=
  parseItems (buf.length + 1) buf false 0

/-- The item that announces the length of the transfer, when there is room for it. -/
def encodeTransferLengthExtension (len transferLength : ℕ) : List UInt8 :=
  if 13 ≤ len then
    0 :: (bigEndian 2 tcpv4ExtensionTypeTransferLength ++ bigEndian 2 8 ++ bigEndian 8 transferLength)
  else []

/-- An extension item. -/
structure Item where
  flags : UInt8
  type : UInt16
  value : List UInt8
  value_lt : value.length < 2 ^ 16
  deriving DecidableEq

namespace Item

def encode (item : Item) : List UInt8 :=
  item.flags :: (bigEndian 2 item.type.toNat ++ bigEndian 2 item.value.length ++ item.value)

def IsTransferLength (item : Item) : Prop := item.type.toNat = tcpv4ExtensionTypeTransferLength

instance (item : Item) : Decidable item.IsTransferLength := Nat.decEq _ _

/-- An item the receiver does not know although its sender insists on it. -/
def Unhandled (item : Item) : Prop :=
  ¬ item.IsTransferLength ∧ item.flags &&& tcpv4ExtensionFlagCritical ≠ 0

instance (item : Item) : Decidable item.Unhandled := inferInstanceAs (Decidable (_ ∧ _))

end Item

/-- An item whose value the parser steps over. -/
def Item.Bare (item : Item) : Prop := ¬ item.IsTransferLength → item.value = []

instance (item : Item) : Decidable item.Bare := inferInstanceAs (Decidable (_ → _))

/-- Items that differ only in the bytes of a value the receiver does not know. -/
def Item.Like (a b : Item) : Prop :=
  a.flags = b.flags ∧ a.type = b.type ∧ a.value.length = b.value.length ∧
    (a.IsTransferLength → a.value = b.value)

def encodeItems (items : List Item) : List UInt8 := items.flatMap Item.encode

/-- At most one item announces the length, and in eight bytes. -/
def Acceptable (items : List Item) : Prop :=
  (items.filter (·.IsTransferLength)).length ≤ 1 ∧
    ∀ item ∈ items, item.IsTransferLength → item.value.length = 8

/-- The announced length, 0 without one. -/
def transferLength (items : List Item) : ℕ :=
  (items.find? (·.IsTransferLength)).elim 0 (ofBigEndian ·.value)

/-- What a buffer says by the declared lengths of its items. -/
def Parsed.Reads (r : Parsed) (buf : List UInt8) : Prop :=
  (∀ items, buf = encodeItems items →
    (r.result = true ↔ Acceptable items) ∧
    (r.result = true →
      (r.criticalItemUnhandled = true ↔ ∃ item ∈ items, item.Unhandled) ∧
      r.extitmTransferLen = transferLength items)) ∧
  ((∀ items, buf ≠ encodeItems items) → r.result = false)

def ParsedRight (buf : List UInt8) : Prop := (parseXferSegmentExtensionItems buf).Reads buf

/-- Behind acceptable items there is never an item of another type that has a value, nor a second
announcement of eight bytes after one of length 0. -/
def Plain (buf : List UInt8) : Prop :=
  ∀ (items : List Item) (item : Item) (tail : List UInt8),
    buf = encodeItems items ++ (item.encode ++ tail) → Acceptable items →
    item.Bare ∧ (item.IsTransferLength → item.value.length = 8 →
      ∀ earlier ∈ items, earlier.IsTransferLength → ofBigEndian earlier.value ≠ 0)

/-! ## Reading one item -/

theorem ofBigEndian_take_lt (l : List UInt8) : ofBigEndian (l.take 2) < 2 ^ 16 :=
  lt_of_lt_of_le (ofBigEndian_lt _)
    (Nat.pow_le_pow_right (by decide) (List.length_take_le 2 l))

/-- The item at the front of a buffer. -/
def readItem (buf : List UInt8) : Option (Item × List UInt8) :=
  if 5 ≤ buf.length ∧ ofBigEndian ((buf.drop 3).take 2) ≤ (buf.drop 5).length then
    some (⟨buf.headD 0, UInt16.ofNat (ofBigEndian ((buf.drop 1).take 2)),
      (buf.drop 5).take (ofBigEndian ((buf.drop 3).take 2)),
      lt_of_le_of_lt (List.length_take_le _ _) (ofBigEndian_take_lt _)⟩,
      (buf.drop 5).drop (ofBigEndian ((buf.drop 3).take 2)))
  else none

theorem Item.encode_append (item : Item) (tail : List UInt8) :
    item.encode ++ tail = item.flags :: (bigEndian 2 item.type.toNat ++
      (bigEndian 2 item.value.length ++ (item.value ++ tail))) := by
  simp [Item.encode]

theorem Item.type_bytes (item : Item) (tail : List UInt8) :
    ofBigEndian (((item.encode ++ tail).drop 1).take 2) = item.type.toNat := by
  have hlt := item.type.toNat_lt
  rw [item.encode_append, List.drop_succ_cons, List.drop_zero,
    List.take_left' (length_bigEndian 2 _), ofBigEndian_bigEndian]
  exact Nat.mod_eq_of_lt hlt

theorem Item.length_bytes (item : Item) (tail : List UInt8) :
    ofBigEndian (((item.encode ++ tail).drop 3).take 2) = item.value.length := by
  have hlt := item.value_lt
  rw [item.encode_append, List.drop_succ_cons, List.drop_left' (length_bigEndian 2 _),
    List.take_left' (length_bigEndian 2 _), ofBigEndian_bigEndian]
  exact Nat.mod_eq_of_lt hlt

theorem Item.drop_head (item : Item) (tail : List UInt8) :
    (item.encode ++ tail).drop 5 = item.value ++ tail := by
  rw [item.encode_append, List.drop_succ_cons, ← List.append_assoc]
  exact List.drop_left' (by simp [length_bigEndian])

theorem Item.length_encode (item : Item) : item.encode.length = 5 + item.value.length := by
  simp [Item.encode, length_bigEndian]
  omega

theorem readItem_encode (item : Item) (tail : List UInt8) :
    readItem (item.encode ++ tail) = some (item, tail) := by
  have hlen := item.length_encode
  unfold readItem
  rw [if_pos (by rw [item.length_bytes, item.drop_head, List.length_append, List.length_append]; omega)]
  simp only [item.type_bytes, item.length_bytes, item.drop_head, List.take_left, List.drop_left,
    UInt16.ofNat_toNat]
  rfl

/-- Items are a prefix code. -/
theorem prefixCode_encode : PrefixCode Item.encode :=
  PrefixCode.of_read (by simp [Item.encode]) readItem_encode

theorem readItem_eq_some {buf tail : List UInt8} {item : Item} (h : readItem buf = some (item, tail)) :
    buf = item.encode ++ tail := by
  unfold readItem at h
  split_ifs at h with hlen
  obtain ⟨rfl, rfl⟩ := Prod.mk.inj (Option.some.inj h)
  cases buf with
  | nil => simp at hlen
  | cons flags rest =>
    simp only [List.length_cons] at hlen
    have htype := bigEndian_ofBigEndian (rest.take 2)
    have hlength := bigEndian_ofBigEndian ((rest.drop 2).take 2)
    rw [List.length_take_of_le (by omega)] at htype
    rw [List.length_take_of_le (by rw [List.length_drop]; omega)] at hlength
    rw [Item.encode_append]
    simp only [List.drop_succ_cons, List.drop_zero, List.headD_cons] at hlen ⊢
    rw [UInt16.toNat_ofNat', Nat.mod_eq_of_lt (ofBigEndian_take_lt _), htype, List.length_take_of_le hlen.2,
      hlength, List.take_append_drop, ← List.append_assoc]
    congr 1
    rw [show (4 : ℕ) = 2 + 2 from rfl, ← List.drop_drop, List.append_assoc,
      List.take_append_drop, List.take_append_drop]

/-! ## One turn of the loop -/

theorem parseItems_nil (fuel : ℕ) (critical : Bool) (transferLen : ℕ) :
    parseItems (fuel + 1) [] critical transferLen = ⟨true, critical, transferLen⟩ := rfl

/-- What is not an item ends the loop. -/
theorem parseItems_none {buf : List UInt8} (hne : buf ≠ []) (h : readItem buf = none) (fuel : ℕ)
    (critical : Bool) (transferLen : ℕ) :
    parseItems (fuel + 1) buf critical transferLen = ⟨false, critical, transferLen⟩ := by
  have hpos := List.length_pos_iff.mpr hne
  unfold readItem at h
  rw [parseItems, if_neg (by omega)]
  by_cases hlen : buf.length < 5
  · rw [if_pos hlen]
  · rw [if_neg hlen]
    simp only
    rw [if_pos]
    by_contra hvalue
    rw [if_pos ⟨by omega, by omega⟩] at h
    cases h

theorem parseItems_encode (fuel : ℕ) (item : Item) (tail : List UInt8) (critical : Bool)
    (transferLen : ℕ) :
    parseItems (fuel + 1) (item.encode ++ tail) critical transferLen =
      if item.IsTransferLength then
        if transferLen ≠ 0 ∨ item.value.length ≠ 8 then ⟨false, critical, transferLen⟩
        else parseItems fuel tail critical (ofBigEndian item.value)
      else parseItems fuel (item.value ++ tail)
        (critical || item.flags &&& tcpv4ExtensionFlagCritical != 0) transferLen := by
  have hlen := item.length_encode
  have hflags : (item.encode ++ tail).headD 0 = item.flags := by
    rw [item.encode_append]
    rfl
  rw [parseItems, if_neg (by rw [List.length_append]; omega),
    if_neg (by rw [List.length_append]; omega)]
  simp only [item.type_bytes, item.length_bytes, item.drop_head, hflags]
  rw [if_neg (by rw [List.length_append]; omega)]
  by_cases htype : item.IsTransferLength
  · rw [if_pos htype, if_pos (show item.type.toNat = _ from htype)]
    by_cases hdup : transferLen = 0
    · by_cases h8 : item.value.length = 8
      · simp [hdup, h8, List.drop_left' h8, List.take_left' h8]
      · simp [hdup, h8]
    · simp [hdup]
  · rw [if_neg htype, if_neg (show ¬ item.type.toNat = _ from htype)]

/-! ## Acceptable items -/

theorem encodeItems_append (items items' : List Item) :
    encodeItems (items ++ items') = encodeItems items ++ encodeItems items' :=
  List.flatMap_append

theorem encodeItems_concat (items : List Item) (item : Item) (tail : List UInt8) :
    encodeItems (items ++ [item]) ++ tail = encodeItems items ++ (item.encode ++ tail) := by
  simp [encodeItems]

theorem transferLength_concat_other {items : List Item} {item : Item}
    (h : ¬ item.IsTransferLength) : transferLength (items ++ [item]) = transferLength items := by
  simp [transferLength, List.find?_append, h]

theorem transferLength_concat {items : List Item} {item : Item} (h : item.IsTransferLength)
    (hnone : ∀ earlier ∈ items, ¬ earlier.IsTransferLength) :
    transferLength (items ++ [item]) = ofBigEndian item.value := by
  have hfind : items.find? (·.IsTransferLength) = none := by
    simpa using hnone
  simp [transferLength, List.find?_append, hfind, h]

/-- The announced length comes from an item. -/
theorem exists_of_transferLength {items : List Item} (h : transferLength items ≠ 0) :
    ∃ item ∈ items, item.IsTransferLength := by
  unfold transferLength at h
  cases hfind : items.find? (·.IsTransferLength) with
  | none => simp [hfind] at h
  | some item =>
    exact ⟨item, List.mem_of_find?_eq_some hfind, by simpa using List.find?_some hfind⟩

theorem transferLength_eq_zero {items : List Item} (h : transferLength items = 0)
    (hpos : ∀ item ∈ items, item.IsTransferLength → ofBigEndian item.value ≠ 0) :
    ∀ item ∈ items, ¬ item.IsTransferLength := by
  unfold transferLength at h
  cases hfind : items.find? (·.IsTransferLength) with
  | none => simpa using hfind
  | some item =>
    have htype : item.IsTransferLength := by simpa using List.find?_some hfind
    exact absurd (by simpa [hfind] using h) (hpos item (List.mem_of_find?_eq_some hfind) htype)

theorem Acceptable.concat_other {items : List Item} {item : Item} (h : Acceptable items)
    (hother : ¬ item.IsTransferLength) : Acceptable (items ++ [item]) := by
  constructor
  · simpa [List.filter_append, hother] using h.1
  · intro i hi htype
    rcases List.mem_append.mp hi with hi | hi
    · exact h.2 i hi htype
    · exact absurd (List.mem_singleton.mp hi ▸ htype) hother

theorem acceptable_concat {items : List Item} {item : Item}
    (hnone : ∀ earlier ∈ items, ¬ earlier.IsTransferLength) (h8 : item.value.length = 8) :
    Acceptable (items ++ [item]) := by
  have hfilter : items.filter (·.IsTransferLength) = [] := by
    simpa [List.filter_eq_nil_iff] using hnone
  constructor
  · rw [List.filter_append, hfilter, List.nil_append]
    exact List.length_filter_le _ [item]
  · intro i hi htype
    rcases List.mem_append.mp hi with hi | hi
    · exact absurd htype (hnone i hi)
    · exact List.mem_singleton.mp hi ▸ h8

/-- A second announcement is not acceptable. -/
theorem not_acceptable_of_two {items more : List Item} {item earlier : Item}
    (hearlier : earlier ∈ items) (htype' : earlier.IsTransferLength) (htype : item.IsTransferLength) :
    ¬ Acceptable (items ++ item :: more) := by
  intro h
  have hone : 0 < (items.filter (·.IsTransferLength)).length :=
    List.length_pos_of_mem (List.mem_filter.mpr ⟨hearlier, by simpa using htype'⟩)
  have hle := h.1
  rw [List.filter_append, List.filter_cons_of_pos (by simpa using htype), List.length_append,
    List.length_cons] at hle
  omega

/-! ## Plain buffers -/

theorem encodeItems_continues {done items : List Item} {buf : List UInt8}
    (h : encodeItems done ++ buf = encodeItems items) :
    ∃ more, items = done ++ more ∧ buf = encodeItems more :=
  prefixCode_encode.flatMap_append h.symm

/-- A buffer that goes on with an item goes on so in every reading. -/
theorem encodeItems_continues_item {done items : List Item} {item : Item} {tail : List UInt8}
    (h : encodeItems done ++ (item.encode ++ tail) = encodeItems items) :
    ∃ more, items = done ++ item :: more := by
  rw [← encodeItems_concat] at h
  obtain ⟨more, rfl, -⟩ := encodeItems_continues h
  exact ⟨more, by simp⟩

/-- The loop behind the items that were read. -/
theorem parseItems_reads {fuel : ℕ} {done : List Item} {buf : List UInt8} (hfuel : buf.length < fuel)
    (hplain : Plain (encodeItems done ++ buf)) (hok : Acceptable done) :
    (parseItems fuel buf (done.any (·.Unhandled)) (transferLength done)).Reads
      (encodeItems done ++ buf) := by
  induction fuel generalizing done buf with
  | zero => omega
  | succ fuel ih =>
    by_cases hnil : buf = []
    · subst hnil
      rw [parseItems_nil, List.append_nil]
      constructor
      · intro items heq
        obtain rfl := prefixCode_encode.flatMap_inj heq
        simp [hok]
      · intro hnot
        exact absurd rfl (hnot done)
    cases hread : readItem buf with
    | none =>
      rw [parseItems_none hnil hread]
      constructor
      · intro items heq
        obtain ⟨more, rfl, rfl⟩ := encodeItems_continues heq
        cases more with
        | nil => exact absurd rfl hnil
        | cons item more =>
          rw [encodeItems, List.flatMap_cons, readItem_encode] at hread
          cases hread
      · intro hnot
        rfl
    | some p =>
      obtain ⟨item, tail⟩ := p
      obtain rfl := readItem_eq_some hread
      obtain ⟨hempty, hzero⟩ := hplain done item tail rfl hok
      have hlen := item.length_encode
      rw [List.length_append] at hfuel
      rw [parseItems_encode]
      by_cases htype : item.IsTransferLength
      · rw [if_pos htype]
        split_ifs with hstop
        · -- a second announcement, or one that has not eight bytes
          constructor
          · intro items heq
            obtain ⟨more, rfl⟩ := encodeItems_continues_item heq
            have hbad : ¬ Acceptable (done ++ item :: more) := by
              rcases hstop with hdup | h8
              · obtain ⟨earlier, hmem, htype'⟩ := exists_of_transferLength hdup
                exact not_acceptable_of_two hmem htype' htype
              · intro h
                exact h8 (h.2 item (by simp) htype)
            simp [hbad]
          · intro hnot
            rfl
        · push Not at hstop
          have hnone := transferLength_eq_zero hstop.1 (hzero htype hstop.2)
          have hany : (done ++ [item]).any (·.Unhandled) = done.any (·.Unhandled) := by
            simp [Item.Unhandled, htype]
          rw [← encodeItems_concat, ← hany, ← transferLength_concat htype hnone]
          apply ih (by omega)
          · rw [encodeItems_concat]
            exact hplain
          · exact acceptable_concat hnone hstop.2
      · have hvalue := hempty htype
        have hany : (done ++ [item]).any (·.Unhandled) =
            (done.any (·.Unhandled) || item.flags &&& tcpv4ExtensionFlagCritical != 0) := by
          by_cases hflag : item.flags &&& tcpv4ExtensionFlagCritical = 0 <;>
            simp [Item.Unhandled, htype, hflag]
        rw [if_neg htype, hvalue, List.nil_append, ← encodeItems_concat, ← hany,
          ← transferLength_concat_other htype]
        apply ih (by omega)
        · rw [encodeItems_concat]
          exact hplain
        · exact hok.concat_other htype

theorem parsedRight_of_plain {buf : List UInt8} (h : Plain buf) : ParsedRight buf :=
  @parseItems_reads _ [] _ (Nat.lt_succ_self _) h ⟨by simp, by simp⟩

/-! ## Lists whose unknown items have no value -/

/-- The announcements the parser lets pass: of eight bytes, and 0 but for the last. -/
def Passes (items : List Item) : Prop :=
  (items.filter (·.IsTransferLength)).Pairwise (fun a _ => ofBigEndian a.value = 0) ∧
    ∀ item ∈ items, item.IsTransferLength → item.value.length = 8

theorem passes_cons {item : Item} {items : List Item} (h : item.IsTransferLength) :
    Passes (item :: items) ↔ Passes items ∧ item.value.length = 8 ∧
      (ofBigEndian item.value = 0 ∨ ∀ i ∈ items, ¬ i.IsTransferLength) := by
  have hall : (∀ i ∈ items.filter (·.IsTransferLength), ofBigEndian item.value = 0) ↔
      ofBigEndian item.value = 0 ∨ ∀ i ∈ items, ¬ i.IsTransferLength := by
    by_cases hzero : ofBigEndian item.value = 0 <;> simp [hzero]
  unfold Passes
  rw [List.filter_cons_of_pos (by simpa using h), List.pairwise_cons, hall, List.forall_mem_cons]
  tauto

theorem passes_cons_other {item : Item} {items : List Item} (h : ¬ item.IsTransferLength) :
    Passes (item :: items) ↔ Passes items := by
  simp [Passes, h]

/-- The parser steps over such a list, and stops at an announcement behind one that is not 0. -/
theorem parseItems_bare {fuel : ℕ} {items : List Item} (hfuel : (encodeItems items).length < fuel)
    (hbare : ∀ item ∈ items, item.Bare) (critical : Bool) (transferLen : ℕ) :
    (parseItems fuel (encodeItems items) critical transferLen).result = true ↔
      Passes items ∧ (transferLen = 0 ∨ ∀ item ∈ items, ¬ item.IsTransferLength) := by
  induction items generalizing fuel critical transferLen with
  | nil =>
    cases fuel with
    | zero => simp at hfuel
    | succ fuel => simp [encodeItems, parseItems_nil, Passes]
  | cons item items ih =>
    have hlen := item.length_encode
    cases fuel with
    | zero => omega
    | succ fuel =>
      simp only [encodeItems, List.flatMap_cons, List.length_append] at hfuel ⊢
      have hrest : (encodeItems items).length < fuel := by
        rw [encodeItems]
        omega
      have ih := ih hrest (fun i hi => hbare i (List.mem_cons_of_mem _ hi))
      rw [parseItems_encode]
      by_cases htype : item.IsTransferLength
      · rw [if_pos htype]
        rw [passes_cons htype]
        split_ifs with hstop
        · simp [htype]
          tauto
        · push Not at hstop
          rw [← encodeItems, ih]
          simp [hstop.1, hstop.2]
      · rw [if_neg htype, hbare item (List.mem_cons_self ..) htype, List.nil_append,
          passes_cons_other htype, ← encodeItems, ih]
        simp [htype]

theorem plain_encodeItems {items : List Item} (hok : Acceptable items)
    (hbare : ∀ item ∈ items, item.Bare) : Plain (encodeItems items) := by
  intro pre item tail heq hpre
  obtain ⟨more, rfl⟩ := encodeItems_continues_item heq.symm
  constructor
  · exact hbare item (by simp)
  · intro htype h8 earlier hearlier htype'
    exact absurd hok (not_acceptable_of_two hearlier htype' htype)

/-- Such a list is read wrong exactly if several announcements pass. -/
theorem parsedRight_bare {items : List Item} (hbare : ∀ item ∈ items, item.Bare) :
    ParsedRight (encodeItems items) ↔ (Passes items → Acceptable items) := by
  have hresult := parseItems_bare (Nat.lt_succ_self _) hbare false 0
  constructor
  · intro hright hpasses
    exact (hright.1 items rfl).1.mp (hresult.mpr ⟨hpasses, Or.inl rfl⟩)
  · intro h
    by_cases hok : Acceptable items
    · exact parsedRight_of_plain (plain_encodeItems hok hbare)
    · have hfalse : ¬ (parseXferSegmentExtensionItems (encodeItems items)).result = true :=
        fun hr => hok (h (hresult.mp hr).1)
      constructor
      · intro items' heq
        obtain rfl := prefixCode_encode.flatMap_inj heq
        simp [hfalse, hok]
      · intro hnot
        exact absurd rfl (hnot items)

/-! ## Values the parser does not step over -/

theorem critical_stays (fuel : ℕ) (buf : List UInt8) (transferLen : ℕ) :
    (parseItems fuel buf true transferLen).criticalItemUnhandled = true := by
  induction fuel generalizing buf transferLen with
  | zero => rfl
  | succ fuel ih =>
    simp only [parseItems, Bool.true_or]
    split_ifs <;> simp [ih]

theorem transferLen_stays (fuel : ℕ) (buf : List UInt8) (critical : Bool) {transferLen : ℕ}
    (h : transferLen ≠ 0) :
    (parseItems fuel buf critical transferLen).extitmTransferLen = transferLen := by
  induction fuel generalizing buf critical with
  | zero => rfl
  | succ fuel ih =>
    simp only [parseItems, if_pos h]
    split_ifs <;> simp [ih]

/-- What a turn on critical flags has to be if the item passes for a known one. -/
theorem parseItems_critical {fuel : ℕ} {flags : UInt8} {rest : List UInt8} {transferLen : ℕ}
    (hflags : flags &&& tcpv4ExtensionFlagCritical ≠ 0)
    (hresult : (parseItems (fuel + 1) (flags :: rest) false transferLen).result = true)
    (hcritical : (parseItems (fuel + 1) (flags :: rest) false transferLen).criticalItemUnhandled =
      false) :
    ofBigEndian (rest.take 2) = 1 ∧ ofBigEndian ((rest.drop 2).take 2) = 8 ∧ 12 ≤ rest.length ∧
      parseItems (fuel + 1) (flags :: rest) false transferLen =
        parseItems fuel (rest.drop 12) false (ofBigEndian ((rest.drop 4).take 8)) := by
  have hcrit : (false || flags &&& tcpv4ExtensionFlagCritical != 0) = true := by simpa using hflags
  simp only [parseItems, List.length_cons, List.drop_succ_cons, List.drop_zero, List.headD_cons,
    tcpv4ExtensionTypeTransferLength, hcrit] at hresult hcritical ⊢
  rw [if_neg (Nat.succ_ne_zero _)] at hresult hcritical ⊢
  by_cases hshort : rest.length + 1 < 5
  · rw [if_pos hshort] at hresult
    cases hresult
  rw [if_neg hshort] at hresult hcritical ⊢
  by_cases hvalue : (rest.drop 4).length < ofBigEndian ((rest.drop 2).take 2)
  · rw [if_pos hvalue] at hresult
    cases hresult
  rw [if_neg hvalue] at hresult hcritical ⊢
  by_cases htype : ofBigEndian (rest.take 2) = 1
  · rw [if_pos htype] at hresult ⊢
    by_cases hdup : transferLen = 0
    · by_cases h8 : ofBigEndian ((rest.drop 2).take 2) = 8
      · rw [List.length_drop] at hvalue
        exact ⟨htype, h8, by omega, by simp [hdup, h8, List.drop_drop]⟩
      · simp [hdup, h8] at hresult
    · simp [hdup] at hresult
  · rw [if_neg htype, critical_stays] at hcritical
    cases hcritical

/-- An item with every byte of an unknown value the same. -/
def Item.fill (b : UInt8) (item : Item) : Item :=
  if item.IsTransferLength then item
  else ⟨item.flags, item.type, List.replicate item.value.length b, by
    rw [List.length_replicate]
    exact item.value_lt⟩

theorem Item.like_fill (b : UInt8) (item : Item) : item.Like (item.fill b) := by
  unfold Item.fill
  split_ifs with h <;> simp [Item.Like, h]

theorem Item.Like.isTransferLength {a b : Item} (h : a.Like b) :
    b.IsTransferLength ↔ a.IsTransferLength := by
  rw [Item.IsTransferLength, Item.IsTransferLength, h.2.1]

theorem Item.Like.bare {a b : Item} (h : a.Like b) (hbare : a.Bare) : b.Bare := by
  intro hb
  have hvalue := hbare (fun ha => hb (h.isTransferLength.mpr ha))
  exact List.eq_nil_of_length_eq_zero (by rw [← h.2.2.1, hvalue]; rfl)

theorem Item.Like.unhandled {a b : Item} (h : a.Like b) : b.Unhandled ↔ a.Unhandled := by
  rw [Item.Unhandled, Item.Unhandled, h.isTransferLength, h.1]

theorem Item.Like.eq {a b : Item} (h : a.Like b) (ha : a.IsTransferLength) : a = b := by
  obtain ⟨hflags, htype, -, hvalue⟩ := h
  cases a
  cases b
  simp only [Item.mk.injEq]
  exact ⟨hflags, htype, hvalue ha⟩

section

variable {items items' : List Item}

theorem filter_like (h : List.Forall₂ Item.Like items items') :
    items'.filter (·.IsTransferLength) = items.filter (·.IsTransferLength) := by
  induction h with
  | nil => rfl
  | @cons a b items items' hab _ ih =>
    by_cases ha : a.IsTransferLength
    · obtain rfl := hab.eq ha
      simp [ha, ih]
    · have hb : ¬ b.IsTransferLength := fun hb => ha (hab.isTransferLength.mp hb)
      simp [ha, hb, ih]

/-- What is asked of a list does not depend on the bytes of unknown values. -/
theorem acceptable_like (h : List.Forall₂ Item.Like items items') :
    Acceptable items' ↔ Acceptable items := by
  have hall (l : List Item) : (∀ item ∈ l, item.IsTransferLength → item.value.length = 8) ↔
      ∀ item ∈ l.filter (·.IsTransferLength), item.value.length = 8 := by
    simp
  rw [Acceptable, Acceptable, hall, hall, filter_like h]

theorem transferLength_like (h : List.Forall₂ Item.Like items items') :
    transferLength items' = transferLength items := by
  rw [transferLength, transferLength, ← List.head?_filter, ← List.head?_filter, filter_like h]

theorem unhandled_like (h : List.Forall₂ Item.Like items items')
    (hnone : ∀ item ∈ items, ¬ item.Unhandled) : ∀ item ∈ items', ¬ item.Unhandled := by
  induction h with
  | nil => exact hnone
  | cons hab _ ih =>
    rw [List.forall_mem_cons] at hnone ⊢
    exact ⟨fun hb => hnone.1 (hab.unhandled.mp hb), ih hnone.2⟩

theorem bare_like (h : List.Forall₂ Item.Like items items') (hbare : ∀ item ∈ items, item.Bare) :
    ∀ item ∈ items', item.Bare := by
  induction h with
  | nil => exact hbare
  | cons hab _ ih =>
    rw [List.forall_mem_cons] at hbare ⊢
    exact ⟨hab.bare hbare.1, ih hbare.2⟩

end

/-- The loop behind bare items when it succeeds in the end. -/
theorem parseItems_front {pre : List Item} {fuel : ℕ} {buf : List UInt8} {transferLen : ℕ}
    (hbare : ∀ item ∈ pre, item.Bare) (hnone : ∀ item ∈ pre, ¬ item.Unhandled)
    (hresult : (parseItems fuel (encodeItems pre ++ buf) false transferLen).result = true) :
    ∃ fuel' transferLen', parseItems fuel (encodeItems pre ++ buf) false transferLen =
      parseItems fuel' buf false transferLen' := by
  induction pre generalizing fuel transferLen with
  | nil => exact ⟨fuel, transferLen, rfl⟩
  | cons item pre ih =>
    rw [List.forall_mem_cons] at hbare hnone
    cases fuel with
    | zero => cases hresult
    | succ fuel =>
      simp only [encodeItems, List.flatMap_cons, List.append_assoc] at hresult ⊢
      rw [parseItems_encode] at hresult ⊢
      by_cases htype : item.IsTransferLength
      · rw [if_pos htype] at hresult ⊢
        split_ifs at hresult ⊢
        exact ih hbare.2 hnone.2 hresult
      · have hflag : (false || item.flags &&& tcpv4ExtensionFlagCritical != 0) = false := by
          simpa [Item.Unhandled, htype] using hnone.1
        rw [if_neg htype, hflag, hbare.1 htype, List.nil_append] at hresult ⊢
        exact ih hbare.2 hnone.2 hresult

theorem forall₂_fill (b : UInt8) (items : List Item) :
    List.Forall₂ Item.Like items (items.map (Item.fill b)) := by
  rw [List.forall₂_map_right_iff, List.forall₂_same]
  exact fun item _ => item.like_fill b

theorem bigEndian_two (n : ℕ) : bigEndian 2 n = [UInt8.ofNat (n / 256), UInt8.ofNat n] := by
  simp [bigEndian]

theorem ofBigEndian_two (a b : UInt8) : ofBigEndian [a, b] = a.toNat * 256 + b.toNat := by
  simp [ofBigEndian]

theorem Item.fill_other {b : UInt8} {item : Item} (h : ¬ item.IsTransferLength) :
    (item.fill b).value = List.replicate item.value.length b := by
  rw [Item.fill, if_neg h]

/-- A value of critical flags is read over only if it is a single byte, which passes for the flags of
an announcement together with the head of the next item. -/
theorem filled_misread {b : UInt8} {fuel k : ℕ} {post : List Item} {transferLen : ℕ}
    (hb : b &&& tcpv4ExtensionFlagCritical ≠ 0)
    (hresult : (parseItems (fuel + 1) (b :: (List.replicate k b ++
      encodeItems (post.map (Item.fill b)))) false transferLen).result = true)
    (hcritical : (parseItems (fuel + 1) (b :: (List.replicate k b ++
      encodeItems (post.map (Item.fill b)))) false transferLen).criticalItemUnhandled = false) :
    ∃ item more, post = item :: more ∧
      (parseItems (fuel + 1) (b :: (List.replicate k b ++
        encodeItems (post.map (Item.fill b)))) false transferLen).extitmTransferLen =
      ofBigEndian (UInt8.ofNat item.value.length :: List.replicate 7 b) := by
  have hb0 : b.toNat ≠ 0 := by
    intro h
    rw [UInt8.toNat_inj (b := 0) |>.mp h] at hb
    exact hb rfl
  obtain ⟨htype, h8, hlen, heq⟩ := parseItems_critical hb hresult hcritical
  cases k with
  | succ k =>
    rw [List.replicate_succ, List.cons_append] at htype hlen
    cases hrest : List.replicate k b ++ encodeItems (post.map (Item.fill b)) with
    | nil => simp [hrest] at hlen
    | cons c rest =>
      rw [hrest, List.take_succ_cons, List.take_succ_cons, List.take_zero, ofBigEndian_two] at htype
      omega
  | zero =>
    rw [List.replicate_zero, List.nil_append] at htype h8 hlen heq ⊢
    cases post with
    | nil => simp [encodeItems] at hlen
    | cons item more =>
      obtain ⟨-, hitem, hlength, -⟩ := item.like_fill b
      have hrest : encodeItems ((item :: more).map (Item.fill b)) = (item.fill b).flags ::
          UInt8.ofNat (item.type.toNat / 256) :: UInt8.ofNat item.type.toNat ::
          UInt8.ofNat (item.value.length / 256) :: UInt8.ofNat item.value.length ::
          ((item.fill b).value ++ encodeItems (more.map (Item.fill b))) := by
        rw [List.map_cons, encodeItems, List.flatMap_cons, Item.encode_append, bigEndian_two,
          bigEndian_two, ← hitem, ← hlength]
        rfl
      rw [hrest] at htype h8
      have hhigh : item.type.toNat / 256 % 256 = 1 := by
        change ofBigEndian [_, _] = 1 at htype
        rw [ofBigEndian_two, UInt8.toNat_ofNat'] at htype
        omega
      have hlong : item.value.length / 256 % 256 = 8 := by
        change ofBigEndian [_, _] = 8 at h8
        rw [ofBigEndian_two, UInt8.toNat_ofNat', UInt8.toNat_ofNat'] at h8
        omega
      have hother : ¬ item.IsTransferLength := by
        intro h
        rw [h, tcpv4ExtensionTypeTransferLength] at hhigh
        omega
      have htake : ((encodeItems ((item :: more).map (Item.fill b))).drop 4).take 8 =
          UInt8.ofNat item.value.length :: List.replicate 7 b := by
        rw [hrest, Item.fill_other hother]
        simp only [List.drop_succ_cons, List.drop_zero, List.take_succ_cons]
        rw [List.take_append_of_le_length (by rw [List.length_replicate]; omega),
          List.take_replicate, min_eq_left (by omega)]
      refine ⟨item, more, rfl, ?_⟩
      rw [heq, htake, transferLen_stays]
      simp [ofBigEndian, List.replicate]
      omega

/-- What has to stand behind the first value that is not stepped over if the list is read right. -/
theorem filled_right {b : UInt8} {pre post : List Item} {x : Item}
    (hb : b &&& tcpv4ExtensionFlagCritical ≠ 0) (hok : Acceptable (pre ++ x :: post))
    (hnone : ∀ item ∈ pre ++ x :: post, ¬ item.Unhandled) (hbare : ∀ item ∈ pre, item.Bare)
    (hx : ¬ x.Bare) (hright : ParsedRight (encodeItems ((pre ++ x :: post).map (Item.fill b)))) :
    ∃ item more, post = item :: more ∧
      ofBigEndian (UInt8.ofNat item.value.length :: List.replicate 7 b) =
        transferLength (pre ++ x :: post) := by
  have hlike := forall₂_fill b (pre ++ x :: post)
  obtain ⟨haccept, hreport⟩ := hright.1 _ rfl
  have hresult := haccept.mpr ((acceptable_like hlike).mpr hok)
  obtain ⟨hcritical, hlength⟩ := hreport hresult
  have hquiet := unhandled_like hlike hnone
  rw [transferLength_like hlike] at hlength
  have hfalse : (parseXferSegmentExtensionItems
      (encodeItems ((pre ++ x :: post).map (Item.fill b)))).criticalItemUnhandled = false := by
    by_contra htrue
    obtain ⟨item, hmem, hitem⟩ := hcritical.mp (by simpa using htrue)
    exact hquiet item hmem hitem
  unfold parseXferSegmentExtensionItems at hresult hlength hfalse
  generalize (encodeItems ((pre ++ x :: post).map (Item.fill b))).length + 1 = fuel
    at hresult hlength hfalse
  rw [List.map_append, encodeItems_append] at hresult hlength hfalse
  rw [List.map_append, List.map_cons, List.forall_mem_append, List.forall_mem_cons] at hquiet
  obtain ⟨fuel', transferLen, heq⟩ := parseItems_front
    (bare_like (forall₂_fill b pre) hbare) hquiet.1 hresult
  rw [heq] at hresult hlength hfalse
  cases fuel' with
  | zero => cases hresult
  | succ fuel' =>
    have hother : ¬ x.IsTransferLength := fun h => hx (fun hnot => absurd h hnot)
    have hother' : ¬ (x.fill b).IsTransferLength :=
      fun h => hother ((x.like_fill b).isTransferLength.mp h)
    have hflag : (false || (x.fill b).flags &&& tcpv4ExtensionFlagCritical != 0) = false := by
      simpa [Item.Unhandled, hother'] using hquiet.2.1
    have hvalue : x.value.length ≠ 0 :=
      fun h => hx (fun _ => List.eq_nil_of_length_eq_zero h)
    obtain ⟨k, hk⟩ := Nat.exists_eq_succ_of_ne_zero hvalue
    rw [List.map_cons, encodeItems, List.flatMap_cons, parseItems_encode, if_neg hother', hflag,
      Item.fill_other hother, hk, List.replicate_succ, List.cons_append] at hresult hlength hfalse
    cases fuel' with
    | zero => cases hresult
    | succ fuel' =>
      obtain ⟨item, more, hpost, htransfer⟩ := filled_misread hb hresult hfalse
      exact ⟨item, more, hpost, htransfer.symm.trans hlength⟩

/-- Where no unknown item insists on being known, a list is read right whatever the bytes of unknown
values exactly if there are none. -/
theorem parsedRight_like {items : List Item} (hok : Acceptable items)
    (hnone : ∀ item ∈ items, ¬ item.Unhandled) :
    (∀ items', List.Forall₂ Item.Like items items' → ParsedRight (encodeItems items')) ↔
      ∀ item ∈ items, item.Bare := by
  constructor
  · intro hright
    by_contra hbare
    push Not at hbare
    obtain ⟨y, hy, hyvalue⟩ := hbare
    obtain ⟨x, hfind⟩ : ∃ x, items.find? (fun item => !decide item.Bare) = some x :=
      Option.isSome_iff_exists.mp (List.find?_isSome.mpr ⟨y, hy, by simpa using hyvalue⟩)
    obtain ⟨hx, pre, post, rfl, hpre⟩ := List.find?_eq_some_iff_append.mp hfind
    have hx : ¬ x.Bare := by simpa using hx
    have hpre : ∀ item ∈ pre, item.Bare := fun item hitem => by simpa using hpre item hitem
    -- bytes 1 and bytes 3 announce different lengths
    obtain ⟨item, more, rfl, h1⟩ := filled_right (b := 1) (by decide) hok hnone hpre hx
      (hright _ (forall₂_fill 1 _))
    obtain ⟨item', more', hmore, h3⟩ := filled_right (b := 3) (by decide) hok hnone hpre hx
      (hright _ (forall₂_fill 3 _))
    obtain ⟨rfl, rfl⟩ := List.cons.inj hmore
    have hsame := ofBigEndian_inj (by simp) (h1.trans h3.symm)
    simp [List.replicate] at hsame
  · intro hbare items' hlike
    exact parsedRight_of_plain (plain_encodeItems ((acceptable_like hlike).mpr hok)
      (bare_like hlike hbare))

/-- Extension items are read by their declared lengths as long as no item of an unknown type has a
value and no announced length of 0 is followed by a second one. -/
theorem extensionItems_parsed (buf : List UInt8) (items : List Item) :
    (Plain buf → ParsedRight buf) ∧
    ((∀ item ∈ items, item.Bare) →
      (ParsedRight (encodeItems items) ↔ (Passes items → Acceptable items))) ∧
    (Acceptable items → (∀ item ∈ items, ¬ item.Unhandled) →
      ((∀ items', List.Forall₂ Item.Like items items' → ParsedRight (encodeItems items')) ↔
        ∀ item ∈ items, item.Bare)) :=
  ⟨parsedRight_of_plain, parsedRight_bare, parsedRight_like⟩

/-- An announcement of 1000 bytes and an item of type 2 that has no value. -/
def announced : List Item :=
  [⟨0, 1, [0, 0, 0, 0, 0, 0, 3, 232], by decide⟩, ⟨0, 2, [], by decide⟩]

theorem extensionItems_parsed_announced :
    ParsedRight (encodeItems announced) ∧
    (Passes announced → Acceptable announced) ∧
    ∀ items', List.Forall₂ Item.Like announced items' → ParsedRight (encodeItems items') := by
  have hok : Acceptable announced := ⟨by decide, by decide⟩
  have hbare : ∀ item ∈ announced, item.Bare := by decide
  have hparsed := extensionItems_parsed (encodeItems announced) announced
  have hright := hparsed.1 (plain_encodeItems hok hbare)
  exact ⟨hright, (hparsed.2.1 hbare).mp hright, (hparsed.2.2 hok (by decide)).mpr hbare⟩

/-- A byte of an item that could be ignored is taken for the next item. -/
def oneByte : List Item := [⟨0, 2, [1], by decide⟩]

theorem extensionItems_misread : ¬ ∀ buf, ParsedRight buf := by
  intro h
  have hright := (h (encodeItems oneByte)).1 oneByte rfl
  have hresult := hright.1.mpr ⟨by decide, by decide⟩
  revert hresult
  decide

/-- The item the sender writes is read back. -/
theorem encodeTransferLengthExtension_parsed {len transferLen : ℕ} (hlen : 13 ≤ len)
    (h : transferLen < 2 ^ 64) :
    parseXferSegmentExtensionItems (encodeTransferLengthExtension len transferLen) =
      ⟨true, false, transferLen⟩ := by
  have hvalue : (bigEndian 8 transferLen).length = 8 := length_bigEndian 8 transferLen
  let item : Item := ⟨0, 1, bigEndian 8 transferLen, by rw [hvalue]; decide⟩
  have hitem : encodeTransferLengthExtension len transferLen = item.encode ++ [] := by
    rw [encodeTransferLengthExtension, if_pos hlen, Item.encode_append, hvalue, List.append_nil,
      List.append_assoc]
    rfl
  have htype : item.IsTransferLength := rfl
  rw [hitem, parseXferSegmentExtensionItems, parseItems_encode, if_pos htype,
    if_neg (by simp [item, hvalue]), List.append_nil, item.length_encode]
  change parseItems (5 + (bigEndian 8 transferLen).length) [] false
    (ofBigEndian (bigEndian 8 transferLen)) = _
  rw [hvalue, parseItems_nil, ofBigEndian_bigEndian, Nat.mod_eq_of_lt (lt_of_lt_of_eq h (by norm_num))]

theorem encodeTransferLengthExtension_parsed_thousand :
    parseXferSegmentExtensionItems (encodeTransferLengthExtension 13 1000) = ⟨true, false, 1000⟩ :=
  encodeTransferLengthExtension_parsed (by decide) (by decide)

end Dtnme.ConvLayers
