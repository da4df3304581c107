import Dtnme.Bundling.EidDecode

/-! # The bytes behind a successful read

A cursor that the parser made stands at a head of the buffer. When an operation succeeds, the bytes
between two cursors are those of the items that were read, and nothing was assigned on the way.
-/

namespace Dtnme.Bundling.TinyCbor
open Library Naming Decoder

/-! ## Spans -/

/-- The bytes of a buffer between two places. -/
structure Span (buf : List UInt8) (p q : ℕ) (l : List UInt8) : Prop where
  drop_eq : buf.drop p = l ++ buf.drop q
  end_eq : q = p + l.length

theorem Span.nil (buf : List UInt8) (p : ℕ) : Span buf p p [] := ⟨rfl, rfl⟩

theorem Span.append {buf l r : List UInt8} {p q t : ℕ} (hl : Span buf p q l) (hr : Span buf q t r) :
    Span buf p t (l ++ r) := by
  constructor
  · rw [hl.drop_eq, hr.drop_eq, List.append_assoc]
  · rw [hr.end_eq, hl.end_eq, List.length_append, Nat.add_assoc]

theorem Span.of_append {buf l r : List UInt8} {p : ℕ} (h : buf.drop p = l ++ r) :
    Span buf p (p + l.length) l := by
  constructor
  · rw [drop_add_of_append h, h]
  · rfl

/-! ## Cursors in place -/

/-- The parser made the cursor: it stands at a head of the buffer, in an array of known length or
alone, or at an end. -/
def Placed (buf : List UInt8) (cv : CborValue) : Prop :=
  cv = .atEnd cv.ptr ∨ preparseBytes cv.ptr cv.remaining (buf.drop cv.ptr) = .done cv ∧
    1 ≤ cv.remaining ∧ cv.remaining < uint32Max

section
variable {ω : Type} {buf : List UInt8} {it cv : CborValue} {log : List ω}

theorem placed_atEnd (buf : List UInt8) (ptr : ℕ) : Placed buf (.atEnd ptr) := .inl rfl

theorem Placed.parsed (h : Placed buf it) (hvalid : it.type ≠ .invalid) :
    preparseBytes it.ptr it.remaining (buf.drop it.ptr) = .done it ∧ 1 ≤ it.remaining ∧
      it.remaining < uint32Max := by
  rcases h with h | h
  · rw [h] at hvalid
    exact absurd rfl hvalid
  · exact h

/-- As long as items remain, the cursor is not at an end. -/
theorem Placed.valid (h : Placed buf it) (hpos : 1 ≤ it.remaining) : it.type ≠ .invalid := by
  rcases h with h | h
  · rw [h] at hpos
    exact absurd hpos (by simp [CborValue.atEnd])
  · exact (preparseBytes_done h.1).2.2.1

/-- The head at a cursor. -/
theorem Placed.head (h : Placed buf it) (hvalid : it.type ≠ .invalid)
    (hknown : it.unknownLength = false) :
    ∃ major hd, Cbor.IsHead major it.value hd ∧ it.type = .ofMajor major ∧
      Span buf it.ptr it.behind hd := by
  obtain ⟨hopen, -⟩ | ⟨-, major, htype, hread⟩ := preparseBytes_inv (h.parsed hvalid).1
  · simp [hknown] at hopen
  · obtain ⟨hd, hh, happend⟩ := Cbor.exists_isHead hread
    refine ⟨major, hd, hh, htype, ?_⟩
    have hspan := Span.of_append happend
    have hle := (preparseBytes_done (h.parsed hvalid).1).2.2.2.1
    have hlen := congrArg List.length happend
    simp only [List.length_append, List.length_drop] at hlen hle
    have hbehind : it.behind = it.ptr + hd.length := by
      unfold CborValue.behind
      omega
    rw [hbehind]
    exact hspan

theorem ofMajor_eq_integer {major : ℕ} (h : CborType.ofMajor major = .integer) : major = 0 := by
  unfold CborType.ofMajor at h
  split at h <;> simp_all

theorem ofMajor_eq_byteString {major : ℕ} (h : CborType.ofMajor major = .byteString) : major = 2 := by
  unfold CborType.ofMajor at h
  split at h <;> simp_all

theorem ofMajor_eq_textString {major : ℕ} (h : CborType.ofMajor major = .textString) : major = 3 := by
  unfold CborType.ofMajor at h
  split at h <;> simp_all

theorem ofMajor_eq_array {major : ℕ} (h : CborType.ofMajor major = .array) : major = 4 := by
  unfold CborType.ofMajor at h
  split at h <;> simp_all

/-- A number has a known length. -/
theorem Placed.known (h : Placed buf it) (htype : it.type.isFixedType = true)
    (hvalid : it.type ≠ .invalid) : it.unknownLength = false := by
  obtain ⟨-, hfixed, -⟩ | ⟨hknown, -⟩ := preparseBytes_inv (h.parsed hvalid).1
  · simp [htype] at hfixed
  · exact hknown

theorem Placed.uint (h : Placed buf it) (htype : it.type = .integer) :
    ∃ hd, Cbor.IsHead 0 it.value hd ∧ Span buf it.ptr it.behind hd := by
  obtain ⟨major, hd, hh, hmajor, hspan⟩ :=
    h.head (by simp [htype]) (h.known (by simp [htype, CborType.isFixedType]) (by simp [htype]))
  obtain rfl := ofMajor_eq_integer (hmajor ▸ htype)
  exact ⟨hd, hh, hspan⟩

theorem Placed.array (h : Placed buf it) (htype : it.type = .array)
    (hknown : it.unknownLength = false) :
    ∃ hd, Cbor.IsHead 4 it.value hd ∧ Span buf it.ptr it.behind hd := by
  obtain ⟨major, hd, hh, hmajor, hspan⟩ := h.head (by simp [htype]) hknown
  obtain rfl := ofMajor_eq_array (hmajor ▸ htype)
  exact ⟨hd, hh, hspan⟩

/-! ## Silent operations -/

/-- Nothing is assigned. -/
structure Silent {α : Type} (d : Decode ω α) : Prop where
  log_eq : ∀ buf, (d buf).1 = []

theorem silent_pure {α : Type} (a : α) : Silent (pure a : Decode ω α) := ⟨fun _ => rfl⟩

theorem silent_fail {α : Type} (e : Failure) : Silent (fail e : Decode ω α) := ⟨fun _ => rfl⟩

theorem Silent.bind {α β : Type} {d : Decode ω α} {f : α → Decode ω β} (hd : Silent d)
    (hf : ∀ a, Silent (f a)) : Silent (d >>= f) := by
  constructor
  intro buf
  have hlog := hd.log_eq buf
  rcases hbuf : d buf with ⟨log, a | _ | e⟩
  · rw [hbuf] at hlog
    rw [bind_done hbuf]
    change log ++ (f a buf).1 = []
    rw [show log = [] from hlog, (hf a).log_eq buf, List.nil_append]
  · rw [hbuf] at hlog
    rw [bind_more hbuf]
    exact hlog
  · rw [hbuf] at hlog
    rw [bind_stop hbuf]
    exact hlog

theorem Silent.ite {α : Type} {c : Prop} [Decidable c] {d e : Decode ω α} (hd : Silent d)
    (he : Silent e) : Silent (if c then d else e) := by
  split_ifs
  · exact hd
  · exact he

theorem silent_preparseValue (ptr remaining : ℕ) : Silent (preparseValue (ω := ω) ptr remaining) :=
  ⟨fun _ => rfl⟩

theorem silent_preparseNextValueNodecrement (ptr remaining : ℕ) :
    Silent (preparseNextValueNodecrement (ω := ω) ptr remaining) := by
  constructor
  intro buf
  unfold preparseNextValueNodecrement
  split_ifs <;> rfl

theorem silent_preparseNextValue (it : CborValue) (ptr : ℕ) :
    Silent (preparseNextValue (ω := ω) it ptr) := by
  unfold preparseNextValue
  exact .ite (silent_preparseNextValueNodecrement ..)
    (.ite (silent_pure _) (silent_preparseNextValueNodecrement ..))

theorem silent_cborParserInit : Silent (cborParserInit (ω := ω)) := silent_preparseValue ..

theorem silent_dataAvailableToParse (it : CborValue) (len : ℕ) :
    Silent (dataAvailableToParse (ω := ω) it len) := by
  constructor
  intro buf
  unfold dataAvailableToParse
  split_ifs <;> rfl

theorem silent_enterContainer (it : CborValue) : Silent (enterContainer (ω := ω) it) := by
  unfold enterContainer
  exact .ite (silent_fail _) (.ite (silent_preparseNextValueNodecrement ..) (.ite (silent_fail _)
    (.ite (silent_fail _) (.ite (silent_pure _) (silent_preparseNextValueNodecrement ..)))))

theorem silent_leaveContainer (it recursed : CborValue) :
    Silent (leaveContainer (ω := ω) it recursed) := by
  unfold leaveContainer
  exact .ite (silent_preparseNextValue ..) (silent_fail _)

theorem silent_advanceFixed (it : CborValue) : Silent (advanceFixed (ω := ω) it) := by
  unfold advanceFixed
  exact .ite (silent_fail _) (silent_preparseNextValue ..)

theorem silent_stringAt (it : CborValue) : Silent (stringAt (ω := ω) it) := by
  constructor
  intro buf
  unfold stringAt
  split_ifs
  · split <;> rfl
  · rfl
  · rfl

theorem silent_dupString (it : CborValue) : Silent (dupString (ω := ω) it) := by
  unfold dupString
  exact (silent_stringAt it).bind fun _ => (silent_preparseNextValue ..).bind fun _ => silent_pure _

theorem silent_decodeUint (it : CborValue) : Silent (decodeUint (ω := ω) it) := by
  unfold decodeUint
  exact (silent_dataAvailableToParse it 1).bind fun _ =>
    .ite ((silent_advanceFixed it).bind fun _ => silent_pure _) (silent_fail _)

theorem silent_validate (it : CborValue) (lo hi : ℕ) :
    Silent (validateCborFixedArrayLength (ω := ω) it lo hi) := by
  unfold validateCborFixedArrayLength
  exact (silent_dataAvailableToParse it 1).bind fun _ =>
    .ite (silent_fail _) (.ite (silent_fail _) (silent_pure _))

theorem silent_decodeTextString (it : CborValue) : Silent (decodeTextString (ω := ω) it) := by
  unfold decodeTextString
  exact (silent_dataAvailableToParse it 1).bind fun _ => .ite (silent_dupString it) (silent_fail _)

theorem silent_decodeNumbersSsp {α : Type} (makeEid : ℕ → ℕ → α) (it : CborValue) :
    Silent (decodeNumbersSsp (ω := ω) makeEid it) :=
  (silent_validate it 2 2).bind fun _ => (silent_enterContainer it).bind fun elements =>
    (silent_decodeUint elements).bind fun first => (silent_decodeUint first.2).bind fun second =>
      (silent_leaveContainer it second.2).bind fun _ => silent_pure _

theorem silent_decodeSsp (schemaType : ℕ) (it : CborValue) :
    Silent (decodeSsp (ω := ω) schemaType it) := by
  have hdtn : Silent (decodeDtnSsp (ω := ω) it) :=
    (silent_dataAvailableToParse it 1).bind fun _ =>
      .ite ((silent_decodeUint it).bind fun _ => .ite (silent_fail _) (silent_pure _))
        (.ite ((silent_decodeTextString it).bind fun _ => silent_pure _) (silent_pure _))
  unfold decodeSsp
  exact .ite hdtn (.ite (silent_decodeNumbersSsp _ it) (.ite (silent_decodeNumbersSsp _ it) (silent_fail _)))

theorem silent_decodeEid (it : CborValue) : Silent (decodeEid (ω := ω) it) :=
  (silent_validate it 2 2).bind fun _ => (silent_enterContainer it).bind fun elements =>
    (silent_decodeUint elements).bind fun schema => (silent_decodeSsp schema.1 schema.2).bind fun ssp =>
      (silent_leaveContainer it ssp.2).bind fun _ => silent_pure _

/-- A value of a sequence, if the first part is silent. -/
theorem Silent.done_bind {α β : Type} {d : Decode ω α} {f : α → Decode ω β} (hd : Silent d) {b : β}
    (h : (d >>= f) buf = (log, .done b)) : ∃ a, d buf = ([], .done a) ∧ f a buf = (log, .done b) := by
  obtain ⟨log₁, a, log₂, h₁, h₂, rfl⟩ := bind_eq_done h
  have hlog := hd.log_eq buf
  rw [h₁] at hlog
  obtain rfl : log₁ = [] := hlog
  exact ⟨a, h₁, h₂⟩

/-! ## What was read -/

theorem preparseValue_inv {ptr remaining : ℕ} (hlo : 1 ≤ remaining) (hhi : remaining < uint32Max)
    (h : preparseValue (ω := ω) ptr remaining buf = (log, .done cv)) :
    Placed buf cv ∧ cv.ptr = ptr ∧ cv.remaining = remaining := by
  have hparse := (Prod.mk.inj h).2
  obtain ⟨hptr, hremaining, -⟩ := preparseBytes_done hparse
  refine ⟨.inr ?_, hptr, hremaining⟩
  rw [hptr, hremaining]
  exact ⟨hparse, hlo, hhi⟩

theorem preparseNextValue_inv {ptr : ℕ} (hit : Placed buf it) (hvalid : it.type ≠ .invalid)
    (htag : it.type ≠ .tag) (h : preparseNextValue (ω := ω) it ptr buf = (log, .done cv)) :
    Placed buf cv ∧ cv.ptr = ptr ∧ cv.remaining = it.remaining - 1 := by
  obtain ⟨-, hlo, hhi⟩ := hit.parsed hvalid
  by_cases hlast : it.remaining = 1
  · rw [preparseNextValue_last htag hlast] at h
    cases h
    exact ⟨placed_atEnd buf ptr, rfl, by rw [hlast]; rfl⟩
  · rw [preparseNextValue_more htag (by omega) hhi] at h
    exact preparseValue_inv (by omega) (by omega) h

theorem cborParserInit_inv (h : cborParserInit (ω := ω) buf = (log, .done cv)) :
    Placed buf cv ∧ cv.ptr = 0 ∧ cv.remaining = 1 :=
  preparseValue_inv le_rfl (by norm_num [uint32Max]) h

theorem validate_inv {lo hi n : ℕ}
    (h : validateCborFixedArrayLength (ω := ω) it lo hi buf = (log, .done n)) :
    it.type = .array ∧ it.unknownLength = false ∧ it.value = n ∧ lo ≤ n ∧ n ≤ hi := by
  obtain ⟨-, -, h⟩ := (silent_dataAvailableToParse it 1).done_bind h
  split_ifs at h with htype hrange
  · cases h
  · cases h
  · cases h
    simp only [not_or, not_not, Bool.not_eq_true, not_lt] at htype hrange
    exact ⟨htype.1, htype.2, rfl, hrange.1, hrange.2⟩

/-- Into an array that is not empty. -/
theorem enterContainer_inv (htype : it.type = .array)
    (hknown : it.unknownLength = false) (hpos : 1 ≤ it.value)
    (h : enterContainer (ω := ω) it buf = (log, .done cv)) :
    Placed buf cv ∧ cv.ptr = it.behind ∧ cv.remaining = it.value := by
  unfold enterContainer at h
  rw [if_neg (by simp [htype, CborType.isContainer]), if_neg (by simp [hknown])] at h
  by_cases hlarge : uint32Max ≤ it.value
  · rw [if_pos hlarge] at h
    cases h
  · rw [if_neg hlarge, if_neg (by simp [htype]), if_neg (by omega), if_neg (by simp [htype]),
      preparseNextValueNodecrement_eq (by omega)] at h
    exact preparseValue_inv hpos (by omega) h

/-- Out of an array, from its end. -/
theorem leaveContainer_inv {recursed : CborValue} (hit : Placed buf it) (htype : it.type = .array)
    (h : leaveContainer (ω := ω) it recursed buf = (log, .done cv)) :
    Placed buf cv ∧ cv.ptr = recursed.ptr ∧ cv.remaining = it.remaining - 1 := by
  unfold leaveContainer at h
  split_ifs at h
  · exact preparseNextValue_inv hit (by simp [htype]) (by simp [htype]) h
  · cases h

theorem decodeUint_inv {v : ℕ} (hit : Placed buf it)
    (h : decodeUint (ω := ω) it buf = (log, .done (v, cv))) :
    ∃ hd, Cbor.IsHead 0 v hd ∧ Span buf it.ptr cv.ptr hd ∧ Placed buf cv ∧
      cv.remaining = it.remaining - 1 := by
  obtain ⟨-, -, h⟩ := (silent_dataAvailableToParse it 1).done_bind h
  split_ifs at h with htype
  · obtain ⟨next, hnext, hpair⟩ := (silent_advanceFixed it).done_bind h
    cases hpair
    unfold advanceFixed at hnext
    rw [if_neg (by simp [htype, CborType.isFixedType])] at hnext
    obtain ⟨hplaced, hptr, hremaining⟩ :=
      preparseNextValue_inv hit (by simp [htype]) (by simp [htype]) hnext
    obtain ⟨hd, hh, hspan⟩ := hit.uint htype
    exact ⟨hd, hh, hptr ▸ hspan, hplaced, hremaining⟩
  · cases h

theorem Placed.string {major : ℕ} (h : Placed buf it) (htype : it.type = .ofMajor major)
    (hmajor : major = 2 ∨ major = 3) (hknown : it.unknownLength = false) :
    ∃ hd, Cbor.IsHead major it.value hd ∧ Span buf it.ptr it.behind hd := by
  have hvalid : it.type ≠ .invalid := by
    rcases hmajor with rfl | rfl <;> simp [htype, CborType.ofMajor]
  obtain ⟨major', hd, hh, hmajor', hspan⟩ := h.head hvalid hknown
  rw [htype] at hmajor'
  have heq : major' = major := by
    rcases hmajor with rfl | rfl
    · exact ofMajor_eq_byteString hmajor'.symm
    · exact ofMajor_eq_textString hmajor'.symm
  exact ⟨hd, heq ▸ hh, hspan⟩

/-- A string of known length. -/
theorem dupString_inv (major : ℕ) {s : List UInt8} (hit : Placed buf it)
    (htype : it.type = .ofMajor major) (hmajor : major = 2 ∨ major = 3)
    (hknown : it.unknownLength = false)
    (h : dupString (ω := ω) it buf = (log, .done (s, cv))) :
    ∃ hd, Cbor.IsHead major s.length hd ∧ s.length = it.value ∧ Span buf it.ptr cv.ptr (hd ++ s) ∧
      Span buf it.ptr it.behind hd ∧ Placed buf cv ∧ cv.remaining = it.remaining - 1 := by
  obtain ⟨⟨s', ptr⟩, hstring, h⟩ := (silent_stringAt it).done_bind h
  obtain ⟨next, hnext, hpair⟩ := (silent_preparseNextValue it ptr).done_bind h
  cases hpair
  obtain ⟨hd, hh, hspan⟩ := hit.string htype hmajor hknown
  have hvalid : it.type ≠ .invalid ∧ it.type ≠ .tag := by
    rcases hmajor with rfl | rfl <;> simp [htype, CborType.ofMajor]
  unfold stringAt at hstring
  rw [if_neg (by simp [hknown])] at hstring
  split_ifs at hstring with hroom
  · cases hstring
    obtain ⟨hplaced, hptr, hremaining⟩ := preparseNextValue_inv hit hvalid.1 hvalid.2 hnext
    have hlen : (slice buf it.behind it.value).length = it.value := length_slice_of_le hroom
    have hstr : Span buf it.behind (it.behind + it.value) (slice buf it.behind it.value) := by
      constructor
      · rw [slice, ← List.drop_drop, List.take_append_drop]
      · rw [hlen]
    refine ⟨hd, hlen.symm ▸ hh, hlen, ?_, hspan, hplaced, hremaining⟩
    rw [hptr]
    exact hspan.append hstr
  · cases hstring

/-! ## Texts and endpoint ids -/

theorem ofMajor_string_inj {major m : ℕ} (hmajor : major = 2 ∨ major = 3)
    (h : CborType.ofMajor m = .ofMajor major) : m = major := by
  rcases hmajor with rfl | rfl
  · exact ofMajor_eq_byteString h
  · exact ofMajor_eq_textString h

/-- The chunks that were read stand in front of their break. -/
theorem stringChunks_inv {major : ℕ} (hmajor : major = 2 ∨ major = 3) {bytes s rest : List UInt8}
    (h : stringChunks (.ofMajor major) bytes = .done s rest) :
    ∃ c, Cbor.Chunks major s c ∧ bytes = c ++ 0xff :: rest := by
  induction hn : bytes.length using Nat.strong_induction_on generalizing bytes s with
  | _ n ih =>
    cases bytes with
    | nil => simp [stringChunks] at h
    | cons b tail =>
      rw [stringChunks] at h
      split_ifs at h with hbreak htype
      · cases h
        exact ⟨[], .nil, by rw [hbreak]; rfl⟩
      · split at h
        · cases h
        · cases h
        · next m len behind hread =>
          split_ifs at h with hroom
          split at h
          · next s' behind' hrec =>
            obtain ⟨hs, rfl⟩ := Outcome.done.inj h
            obtain ⟨hd, hh, happend⟩ := Cbor.exists_isHead hread
            have hmajor' : m = major := by
              rw [Cbor.readHead_major hread]
              exact ofMajor_string_inj hmajor htype
            have hpos := hh.length_pos
            have hlen := congrArg List.length happend
            rw [List.length_append] at hlen
            obtain ⟨c, hc, hrest⟩ := ih _ (by rw [List.length_drop]; omega) hrec rfl
            have htake : (behind.take len).length = len := List.length_take_of_le (by omega)
            have hhead : Cbor.IsHead major (behind.take len).length hd := by
              rw [htake, ← hmajor']
              exact hh
            refine ⟨hd ++ (behind.take len ++ c), hs ▸ .cons hhead hc, ?_⟩
            rw [happend, List.append_assoc, List.append_assoc, ← hrest, List.take_append_drop]
          · cases h
          · cases h

/-- The marker of an item of no known length. -/
theorem preparseBytes_open {ptr remaining : ℕ} {bytes : List UInt8}
    (h : preparseBytes ptr remaining bytes = .done cv) (hopen : cv.unknownLength = true) :
    ∃ major tail, bytes = UInt8.ofNat (major * 32 + 31) :: tail ∧ cv = openAt ptr remaining major := by
  cases bytes with
  | nil => simp [preparseBytes] at h
  | cons b tail =>
    rw [preparseBytes] at h
    by_cases hmark : b.toNat % 32 = 31 ∧ (CborType.ofMajor (b.toNat / 32)).isFixedType = false
    · simp only [if_pos hmark] at h
      refine ⟨b.toNat / 32, tail, ?_, (Ending.done.inj h).symm⟩
      congr 1
      apply UInt8.toNat_inj.mp
      rw [UInt8.toNat_ofNat']
      have hb := b.toNat_lt
      omega
    · simp only [if_neg hmark] at h
      split at h
      · cases h
      · cases h
      · split_ifs at h
        cases h
        simp at hopen

theorem decodeTextString_inv {s : List UInt8} (hit : Placed buf it)
    (h : decodeTextString (ω := ω) it buf = (log, .done (s, cv))) :
    ∃ x, TextItem s x ∧ Span buf it.ptr cv.ptr x ∧ Placed buf cv ∧
      cv.remaining = it.remaining - 1 := by
  obtain ⟨-, -, h⟩ := (silent_dataAvailableToParse it 1).done_bind h
  split_ifs at h with htype
  · by_cases hknown : it.unknownLength = false
    · obtain ⟨hd, hh, -, hspan, -, hplaced, hremaining⟩ :=
        dupString_inv 3 hit htype (.inr rfl) hknown h
      exact ⟨hd ++ s, .whole hh, hspan, hplaced, hremaining⟩
    · obtain ⟨hparsed, -⟩ := hit.parsed (by simp [htype])
      rw [Bool.not_eq_false] at hknown
      obtain ⟨major, tail, hbytes, hcv⟩ := preparseBytes_open hparsed hknown
      obtain rfl : major = 3 := by
        apply ofMajor_eq_textString
        rw [← htype, hcv]
        rfl
      obtain ⟨⟨s', ptr⟩, hstring, h⟩ := (silent_stringAt it).done_bind h
      obtain ⟨next, hnext, hpair⟩ := (silent_preparseNextValue it ptr).done_bind h
      cases hpair
      have hbehind : it.behind = it.ptr + 1 := by rw [hcv]; rfl
      have hdrop : buf.drop it.behind = tail := by
        rw [hbehind, ← List.drop_drop, hbytes]
        rfl
      unfold stringAt at hstring
      rw [if_pos hknown, htype, hdrop] at hstring
      split at hstring
      · next s' rest hchunks =>
        cases hstring
        obtain ⟨hplaced, hptr, hremaining⟩ :=
          preparseNextValue_inv hit (by simp [htype]) (by simp [htype]) hnext
        obtain ⟨c, hc, htail⟩ := stringChunks_inv (.inr rfl) hchunks
        have hitem : buf.drop it.ptr = (0x7f :: (c ++ [0xff])) ++ rest := by
          rw [hbytes, htail]
          simp
        have hlen := length_of_drop hitem (by simp)
        have hspan := Span.of_append hitem
        have hend : buf.length - rest.length = it.ptr + (0x7f :: (c ++ [0xff])).length := by
          rw [List.length_append] at hlen
          omega
        rw [hend] at hptr
        exact ⟨_, .chunked hc, hptr ▸ hspan, hplaced, hremaining⟩
      · cases hstring
      · cases hstring
  · cases h

/-- An array of two numbers. -/
theorem decodeNumbersSsp_inv {α : Type} {makeEid : ℕ → ℕ → α} {eid : α} (hit : Placed buf it)
    (h : decodeNumbersSsp (ω := ω) makeEid it buf = (log, .done (eid, cv))) :
    ∃ b n x m y, Cbor.IsHead 4 2 b ∧ Cbor.IsHead 0 n x ∧ Cbor.IsHead 0 m y ∧ eid = makeEid n m ∧
      Span buf it.ptr cv.ptr (b ++ (x ++ y)) ∧ Placed buf cv ∧ cv.remaining = it.remaining - 1 := by
  obtain ⟨len, hlen, h⟩ := (silent_validate it 2 2).done_bind h
  obtain ⟨htype, hknown, hvalue, hlo, hhi⟩ := validate_inv hlen
  obtain ⟨elements, henter, h⟩ := (silent_enterContainer it).done_bind h
  obtain ⟨helements, hptr, -⟩ := enterContainer_inv htype hknown (by omega) henter
  obtain ⟨⟨n, first⟩, hn, h⟩ := (silent_decodeUint elements).done_bind h
  obtain ⟨x, hx, hspanx, hfirst, -⟩ := decodeUint_inv helements hn
  obtain ⟨⟨m, second⟩, hm, h⟩ := (silent_decodeUint first).done_bind h
  obtain ⟨y, hy, hspany, -, -⟩ := decodeUint_inv hfirst hm
  obtain ⟨next, hleave, hpair⟩ := (silent_leaveContainer it second).done_bind h
  cases hpair
  obtain ⟨hnext, hptr', hremaining⟩ := leaveContainer_inv hit htype hleave
  obtain ⟨b, hb, hspanb⟩ := hit.array htype hknown
  rw [hvalue, show len = 2 by omega] at hb
  rw [← hptr] at hspanb
  rw [hptr']
  exact ⟨b, n, x, m, y, hb, hx, hy, rfl, hspanb.append (hspanx.append hspany), hnext, hremaining⟩

theorem leaveContainer_done {recursed : CborValue}
    (h : leaveContainer (ω := ω) it recursed buf = (log, .done cv)) : recursed.type = .invalid := by
  unfold leaveContainer at h
  split_ifs at h with hend
  · exact hend.2
  · cases h

/-- What was decoded as an endpoint id is one. -/
theorem decodeEid_inv {eid : Eid} (hit : Placed buf it)
    (h : decodeEid (ω := ω) it buf = (log, .done (eid, cv))) :
    ∃ item, EidItem eid item ∧ Span buf it.ptr cv.ptr item ∧ Placed buf cv ∧
      cv.remaining = it.remaining - 1 := by
  obtain ⟨len, hlen, h⟩ := (silent_validate it 2 2).done_bind h
  obtain ⟨htype, hknown, hvalue, hlo, hhi⟩ := validate_inv hlen
  obtain ⟨elements, henter, h⟩ := (silent_enterContainer it).done_bind h
  obtain ⟨helements, hptr, htwo⟩ := enterContainer_inv htype hknown (by omega) henter
  obtain ⟨⟨schemaType, ssp⟩, hschema, h⟩ := (silent_decodeUint elements).done_bind h
  obtain ⟨t, ht, hspant, hssp, hone⟩ := decodeUint_inv helements hschema
  obtain ⟨⟨eid', last⟩, hpart, h⟩ := (silent_decodeSsp schemaType ssp).done_bind h
  obtain ⟨next, hleave, hpair⟩ := (silent_leaveContainer it last).done_bind h
  cases hpair
  obtain ⟨hnext, hptr', hremaining⟩ := leaveContainer_inv hit htype hleave
  obtain ⟨a, ha, hspana⟩ := hit.array htype hknown
  rw [hvalue, show len = 2 by omega] at ha
  rw [← hptr] at hspana
  rw [hptr']
  have hnumbers : ∀ {makeEid}, NumbersScheme schemaType makeEid →
      decodeNumbersSsp (ω := ω) makeEid ssp buf = ([], .done (eid, last)) →
      ∃ item, EidItem eid item ∧ Span buf it.ptr last.ptr item ∧ Placed buf cv ∧
        cv.remaining = it.remaining - 1 := by
    intro makeEid hscheme hdone
    obtain ⟨b, n, x, m, y, hb, hx, hy, rfl, hspan, -, -⟩ := decodeNumbersSsp_inv hssp hdone
    exact ⟨_, .numbers hscheme ha ht hb hx hy, hspana.append (hspant.append hspan), hnext, hremaining⟩
  unfold decodeSsp at hpart
  split_ifs at hpart with hdtn hipn himc
  · subst hdtn
    obtain ⟨-, -, hpart⟩ := (silent_dataAvailableToParse ssp 1).done_bind hpart
    split_ifs at hpart with hint htext
    · obtain ⟨⟨num, behind⟩, hnum, hpart⟩ := (silent_decodeUint ssp).done_bind hpart
      simp only at hpart
      obtain ⟨x, hx, hspanx, -, -⟩ := decodeUint_inv hssp hnum
      by_cases hzero : num = 0
      · rw [if_neg (by simp [hzero])] at hpart
        cases hpart
        exact ⟨_, .null ha ht (hzero ▸ hx), hspana.append (hspant.append hspanx), hnext, hremaining⟩
      · rw [if_pos hzero] at hpart
        cases hpart
    · obtain ⟨⟨s, behind⟩, htextual, hpart⟩ := (silent_decodeTextString ssp).done_bind hpart
      cases hpart
      obtain ⟨x, hx, hspanx, -, -⟩ := decodeTextString_inv hssp htextual
      exact ⟨_, .dtn ha ht hx, hspana.append (hspant.append hspanx), hnext, hremaining⟩
    · cases hpart
      exact absurd (leaveContainer_done hleave) (hssp.valid (by omega))
  · exact hnumbers (hipn ▸ .ipn) hpart
  · exact hnumbers (himc ▸ .imc) hpart
  · cases hpart

end

end Dtnme.Bundling.TinyCbor
