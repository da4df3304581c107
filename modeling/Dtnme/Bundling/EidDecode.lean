import Dtnme.Naming.EndpointId
import Dtnme.Bundling.CborCursor

/-! # Decoding an endpoint id

An endpoint id is an array of a scheme's number and a scheme-specific part: zero or a text for `dtn`,
an array of two numbers for `ipn` and `imc`.
-/

namespace Dtnme.Bundling
open Library Naming TinyCbor Decoder

/-- `make_eid_dtn`. -/
def makeEidDtn (ssp : List UInt8) : Eid := makeEidScheme (text "dtn") ssp

def schemaTypeDtn : ℕ := 1
def schemaTypeIpn : ℕ := 2
def schemaTypeImc : ℕ := 3

section
variable {ω : Type}

def decodeTextString (it : CborValue) : Decode ω (List UInt8 × CborValue) := do
  dataAvailableToParse it 1
  if it.type = .textString then dupString it else fail .fail

/-- The part behind the number of `dtn`. What is neither a number nor a text is left where it is. -/
def decodeDtnSsp (it : CborValue) : Decode ω (Eid × CborValue) := do
  dataAvailableToParse it 1
  if it.type = .integer then
    let (num, next) ← decodeUint it
    if num ≠ 0 then fail .fail else pure (makeEidNull, next)
  else if it.type = .textString then
    let (ssp, next) ← decodeTextString it
    pure (makeEidDtn ssp, next)
  else pure (makeEidNull, it)

/-- The part behind the numbers of `ipn` and `imc`, an array of two numbers. -/
def decodeNumbersSsp {α : Type} (makeEid : ℕ → ℕ → α) (it : CborValue) : Decode ω (α × CborValue) := do
  let _ ← validateCborFixedArrayLength it 2 2
  let elements ← enterContainer it
  let (num, elements) ← decodeUint elements
  let (service, elements) ← decodeUint elements
  let next ← leaveContainer it elements
  pure (makeEid num service, next)

def decodeSsp (schemaType : ℕ) (it : CborValue) : Decode ω (Eid × CborValue) :=
  if schemaType = schemaTypeDtn then decodeDtnSsp it
  else if schemaType = schemaTypeIpn then decodeNumbersSsp makeEidIpn it
  else if schemaType = schemaTypeImc then decodeNumbersSsp makeEidImc it
  else fail .fail

def decodeEid (it : CborValue) : Decode ω (Eid × CborValue) := do
  let _ ← validateCborFixedArrayLength it 2 2
  let elements ← enterContainer it
  let (schemaType, elements) ← decodeUint elements
  let (eid, elements) ← decodeSsp schemaType elements
  let next ← leaveContainer it elements
  pure (eid, next)

end

/-! ## The grammar -/

/-- A text, in one piece or in chunks. -/
inductive TextItem : List UInt8 → List UInt8 → Prop
  | whole {s h} (hh : Cbor.IsHead 3 s.length h) : TextItem s (h ++ s)
  | chunked {s c} (hc : Cbor.Chunks 3 s c) : TextItem s (0x7f :: (c ++ [0xff]))

/-- The numbers of `ipn` and `imc`, and the ids that they make. -/
inductive NumbersScheme : ℕ → (ℕ → ℕ → Eid) → Prop
  | ipn : NumbersScheme schemaTypeIpn makeEidIpn
  | imc : NumbersScheme schemaTypeImc makeEidImc

/-- The bytes of an endpoint id. -/
inductive EidItem : Eid → List UInt8 → Prop
  | null {a t x} (ha : Cbor.IsHead 4 2 a) (ht : Cbor.IsHead 0 schemaTypeDtn t)
      (hx : Cbor.IsHead 0 0 x) : EidItem makeEidNull (a ++ (t ++ x))
  | dtn {a t s x} (ha : Cbor.IsHead 4 2 a) (ht : Cbor.IsHead 0 schemaTypeDtn t)
      (hx : TextItem s x) : EidItem (makeEidDtn s) (a ++ (t ++ x))
  | numbers {a t b x y schemaType makeEid n m} (hscheme : NumbersScheme schemaType makeEid)
      (ha : Cbor.IsHead 4 2 a) (ht : Cbor.IsHead 0 schemaType t) (hb : Cbor.IsHead 4 2 b)
      (hx : Cbor.IsHead 0 n x) (hy : Cbor.IsHead 0 m y) :
      EidItem (makeEid n m) (a ++ (t ++ (b ++ (x ++ y))))

/-- An item at the cursor, as far as the decoder tells items apart. -/
inductive ItemAt (cv : CborValue) : List UInt8 → Prop
  | uint {v h} (hh : Cbor.IsHead 0 v h) (hcv : cv = headAt cv.ptr cv.remaining 0 v h) : ItemAt cv h
  | text {s x} (hx : TextItem s x) (htype : cv.type = .textString) : ItemAt cv x
  | array {v h body} (hh : Cbor.IsHead 4 v h) (hbody : Cbor.Items v body)
      (hcv : cv = headAt cv.ptr cv.remaining 4 v h) : ItemAt cv (h ++ body)
  | other {item} (hint : cv.type ≠ .integer) (htext : cv.type ≠ .textString)
      (harray : cv.type ≠ .array ∨ cv.unknownLength = true) (hvalid : cv.type ≠ .invalid) :
      ItemAt cv item

theorem ItemAt.of_major {cv : CborValue} {item : List UInt8} (major : ℕ)
    (htype : cv.type = .ofMajor major) (hmajor : major ∈ [1, 2, 5, 6, 7]) : ItemAt cv item := by
  simp only [List.mem_cons, List.not_mem_nil, or_false] at hmajor
  rcases hmajor with rfl | rfl | rfl | rfl | rfl <;>
    exact .other (by simp [htype, CborType.ofMajor]) (by simp [htype, CborType.ofMajor])
      (.inl (by simp [htype, CborType.ofMajor])) (by simp [htype, CborType.ofMajor])

theorem itemAt_of_items {item rest : List UInt8} (h : Cbor.Items 1 item) {ptr remaining : ℕ}
    {cv : CborValue} (hcv : preparseBytes ptr remaining (item ++ rest) = .done cv) :
    ItemAt cv item := by
  have hhead : ∀ {major v : ℕ} {hd tail : List UInt8}, Cbor.IsHead major v hd →
      (major = 7 → Cbor.SimpleForm v hd) → item = hd ++ tail →
      cv = headAt ptr remaining major v hd := by
    rintro major v hd tail hh hform rfl
    rw [List.append_assoc, preparseBytes_head hh hform] at hcv
    exact (Ending.done.inj hcv).symm
  have hmarker : ∀ {major : ℕ} {tail : List UInt8}, 2 ≤ major → major ≤ 5 →
      item = UInt8.ofNat (major * 32 + 31) :: tail → cv = openAt ptr remaining major := by
    rintro major tail hlo hhi rfl
    rw [List.cons_append, preparseBytes_marker hlo hhi] at hcv
    exact (Ending.done.inj hcv).symm
  cases h with
  | @number major v _ hd tail hh hmajor hrest =>
    obtain rfl := hrest.eq_nil
    rw [List.append_nil]
    obtain rfl := hhead hh (by omega) rfl
    rcases hmajor with rfl | rfl
    · exact .uint hh rfl
    · exact .of_major 1 rfl (by decide)
  | @simple v _ hd tail hh hform hrest =>
    obtain rfl := hhead hh (fun _ => hform) rfl
    exact .of_major 7 rfl (by decide)
  | @string major _ hd s tail hh hmajor hrest =>
    obtain rfl := hrest.eq_nil
    rw [List.append_nil]
    obtain rfl := hhead hh (by omega) rfl
    rcases hmajor with rfl | rfl
    · exact .of_major 2 rfl (by decide)
    · exact .text (.whole hh) rfl
  | @chunks major _ s b tail hchunks hmajor hrest =>
    obtain rfl := hrest.eq_nil
    obtain rfl := hmarker (by omega) (by omega) rfl
    rcases hmajor with rfl | rfl
    · exact .of_major 2 rfl (by decide)
    · exact .text (.chunked hchunks) rfl
  | @array v _ hd body tail hh hbody hrest =>
    obtain rfl := hrest.eq_nil
    rw [List.append_nil]
    obtain rfl := hhead hh (by omega) rfl
    exact .array hh hbody rfl
  | @map v _ hd body tail hh hbody hrest =>
    obtain rfl := hhead hh (by omega) rfl
    exact .of_major 5 rfl (by decide)
  | openArray hbody hrest =>
    obtain rfl := hmarker (show 2 ≤ 4 by omega) (by omega) rfl
    exact .other (by simp [CborType.ofMajor]) (by simp [CborType.ofMajor]) (.inr rfl)
      (by simp [CborType.ofMajor])
  | openMap hbody hrest =>
    obtain rfl := hmarker (show 2 ≤ 5 by omega) (by omega) rfl
    exact .of_major 5 rfl (by decide)
  | @tag v _ hd item tail hh hitem hrest =>
    obtain rfl := hhead hh (by omega) rfl
    exact .of_major 6 rfl (by decide)

/-! ## Where the cursor goes -/

section
variable {ω : Type} {buf rest : List UInt8}

/-- A number, and the cursor at what follows it in the array. -/
theorem decodeUint_next {h : List UInt8} {v ptr remaining : ℕ} {cv : CborValue}
    (hh : Cbor.IsHead 0 v h) (hbuf : buf.drop ptr = h ++ rest) (hlo : 2 ≤ remaining)
    (hhi : remaining < uint32Max)
    (hnext : preparseBytes (ptr + h.length) (remaining - 1) rest = .done cv) :
    decodeUint (ω := ω) (headAt ptr remaining 0 v h) buf = ([], .done (v, cv)) := by
  rw [decodeUint_head hh hbuf, pairNext,
    preparseNextValue_more (by simp [CborType.ofMajor]) hlo hhi, headAt_remaining]
  have hvalue : preparseValue (ω := ω) (ptr + h.length) (remaining - 1) buf = ([], .done cv) := by
    rw [preparseValue, drop_add_of_append hbuf, hnext]
  rw [bind_of_done hvalue]
  rfl

theorem decodeUint_last {h : List UInt8} {v ptr : ℕ} (hh : Cbor.IsHead 0 v h)
    (hbuf : buf.drop ptr = h ++ rest) :
    decodeUint (ω := ω) (headAt ptr 1 0 v h) buf = ([], .done (v, .atEnd (ptr + h.length))) := by
  rw [decodeUint_head hh hbuf, pairNext, preparseNextValue_last (by simp [CborType.ofMajor]) rfl]
  rfl

/-- Into an array of two items. -/
theorem enterContainer_two {a : List UInt8} {ptr : ℕ} (remaining : ℕ) {cv : CborValue}
    (ha : Cbor.IsHead 4 2 a) (hbuf : buf.drop ptr = a ++ rest)
    (hnext : preparseBytes (ptr + a.length) 2 rest = .done cv) :
    enterContainer (ω := ω) (headAt ptr remaining 4 2 a) buf = ([], .done cv) := by
  rw [enterContainer_array ha (by norm_num) (by norm_num [uint32Max]), preparseValue,
    drop_add_of_append hbuf, hnext]

/-- Out of an array at its end. -/
theorem leaveContainer_pair {β : Type} {it : CborValue} (htype : it.type.isContainer = true) (ptr : ℕ)
    (b : β) : (do
      let next ← leaveContainer (ω := ω) it (.atEnd ptr)
      pure (b, next)) = pairNext it ptr b := by
  rw [leaveContainer_atEnd htype]
  rfl

theorem bind_of_stop {α β : Type} {d : Decode ω α} {f : α → Decode ω β} {e : Failure}
    (hd : d buf = ([], .stop e)) : (d >>= f) buf = ([], .stop e) := bind_stop hd

/-! ## The scheme-specific part -/

theorem decodeTextString_item {it : CborValue} {s x : List UInt8} (hx : TextItem s x)
    (hbuf : buf.drop it.ptr = x ++ rest)
    (hit : preparseBytes it.ptr it.remaining (x ++ rest) = .done it) :
    decodeTextString (ω := ω) it buf = pairNext it (it.ptr + x.length) s buf := by
  unfold decodeTextString
  cases hx with
  | @whole h hh =>
    rw [List.append_assoc, preparseBytes_head hh (by omega)] at hit
    have hcv := (Ending.done.inj hit).symm
    have htype : it.type = .textString := by rw [hcv]; rfl
    rw [List.append_assoc] at hbuf
    rw [bind_of_done (dataAvailable_head hh hbuf), if_pos htype, hcv, dupString_head hh hbuf,
      List.length_append]
    rfl
  | @chunked c hc =>
    rw [List.cons_append, List.append_assoc] at hbuf hit
    have hmarker := preparseBytes_marker (show 2 ≤ 3 by omega) (by omega) it.ptr it.remaining
      (c ++ ([0xff] ++ rest))
    have hcv := Ending.done.inj (hit.symm.trans hmarker)
    have htype : it.type = .textString := by rw [hcv]; rfl
    rw [bind_of_done (dataAvailable_of_drop hbuf), if_pos htype, hcv,
      dupString_chunks hc (.inr rfl) hbuf]
    simp only [List.length_cons, List.length_append, List.length_nil]
    rfl

/-- The last item of an array, and its end. -/
theorem pairNext_last {α : Type} {it : CborValue} (htype : it.type ≠ .tag) (hr : it.remaining = 1)
    (ptr : ℕ) (a : α) : pairNext (ω := ω) it ptr a buf = ([], .done (a, .atEnd ptr)) := by
  rw [pairNext, preparseNextValue_last htype hr]
  rfl

theorem decodeDtnSsp_null {it : CborValue} {h : List UInt8} (hh : Cbor.IsHead 0 0 h)
    (hcv : it = headAt it.ptr 1 0 0 h) (hbuf : buf.drop it.ptr = h ++ rest) :
    decodeDtnSsp (ω := ω) it buf = ([], .done (makeEidNull, .atEnd (it.ptr + h.length))) := by
  have htype : it.type = .integer := by rw [hcv]; rfl
  unfold decodeDtnSsp
  rw [bind_of_done (dataAvailable_head hh hbuf), if_pos htype, hcv,
    bind_of_done (decodeUint_last hh hbuf)]
  rfl

theorem decodeDtnSsp_number {it : CborValue} {h : List UInt8} {v : ℕ} (hh : Cbor.IsHead 0 v h)
    (hv : v ≠ 0) (hcv : it = headAt it.ptr 1 0 v h) (hbuf : buf.drop it.ptr = h ++ rest) :
    decodeDtnSsp (ω := ω) it buf = ([], .stop .fail) := by
  have htype : it.type = .integer := by rw [hcv]; rfl
  unfold decodeDtnSsp
  rw [bind_of_done (dataAvailable_head hh hbuf), if_pos htype, hcv,
    bind_of_done (decodeUint_last hh hbuf)]
  simp only
  rw [if_pos hv]
  rfl

theorem decodeDtnSsp_text {it : CborValue} {s x : List UInt8} (hx : TextItem s x)
    (htype : it.type = .textString) (hr : it.remaining = 1) (hbuf : buf.drop it.ptr = x ++ rest)
    (hit : preparseBytes it.ptr it.remaining (x ++ rest) = .done it) :
    decodeDtnSsp (ω := ω) it buf = ([], .done (makeEidDtn s, .atEnd (it.ptr + x.length))) := by
  have havail : dataAvailableToParse (ω := ω) it 1 buf = ([], .done ()) := by
    cases hx with
    | whole hh =>
      rw [List.append_assoc] at hbuf
      exact dataAvailable_head hh hbuf
    | chunked hc => exact dataAvailable_of_drop hbuf
  unfold decodeDtnSsp
  rw [bind_of_done havail, if_neg (by simp [htype]), if_pos htype,
    bind_of_done ((decodeTextString_item hx hbuf hit).trans (pairNext_last (by simp [htype]) hr _ _))]
  rfl

theorem decodeDtnSsp_other {it : CborValue} {b : UInt8} (hint : it.type ≠ .integer)
    (htext : it.type ≠ .textString) (hbuf : buf.drop it.ptr = b :: rest) :
    decodeDtnSsp (ω := ω) it buf = ([], .done (makeEidNull, it)) := by
  unfold decodeDtnSsp
  rw [bind_of_done (dataAvailable_of_drop hbuf), if_neg hint, if_neg htext]
  rfl

theorem decodeNumbersSsp_pair {α : Type} (makeEid : ℕ → ℕ → α) {b x y : List UInt8}
    (ptr remaining : ℕ) {n m : ℕ} (hb : Cbor.IsHead 4 2 b) (hx : Cbor.IsHead 0 n x)
    (hy : Cbor.IsHead 0 m y) (hbuf : buf.drop ptr = b ++ (x ++ (y ++ rest))) :
    decodeNumbersSsp (ω := ω) makeEid (headAt ptr remaining 4 2 b) buf =
      pairNext (headAt ptr remaining 4 2 b) (ptr + (b ++ (x ++ y)).length) (makeEid n m) buf := by
  have hbufx := drop_add_of_append hbuf
  have hbufy := drop_add_of_append hbufx
  have hvalid := validateCborFixedArrayLength_array (ω := ω) remaining 2 2 hb hbuf
  have henter := enterContainer_two (ω := ω) remaining hb hbuf (preparseBytes_head hx (by omega) _ 2 _)
  have hfirst := decodeUint_next (ω := ω) hx hbufx le_rfl (by norm_num [uint32Max])
    (preparseBytes_head hy (by omega) _ 1 rest)
  rw [if_neg (by omega)] at hvalid
  unfold decodeNumbersSsp
  rw [bind_of_done hvalid, bind_of_done henter, bind_of_done hfirst]
  simp only
  rw [bind_of_done (decodeUint_last hy hbufy)]
  simp only
  rw [leaveContainer_pair rfl]
  simp only [List.length_append, Nat.add_assoc]

theorem decodeNumbersSsp_item (makeEid : ℕ → ℕ → Eid) {b x y : List UInt8} {ptr n m : ℕ}
    (hb : Cbor.IsHead 4 2 b) (hx : Cbor.IsHead 0 n x) (hy : Cbor.IsHead 0 m y)
    (hbuf : buf.drop ptr = b ++ (x ++ (y ++ rest))) :
    decodeNumbersSsp (ω := ω) makeEid (headAt ptr 1 4 2 b) buf =
      ([], .done (makeEid n m, .atEnd (ptr + (b ++ (x ++ y)).length))) := by
  rw [decodeNumbersSsp_pair makeEid ptr 1 hb hx hy hbuf, pairNext_last (by simp [CborType.ofMajor]) rfl]

/-! ## The whole -/

/-- Up to the scheme-specific part. -/
theorem decodeEid_array {it cv : CborValue} {a t : List UInt8} {schemaType : ℕ}
    (ha : Cbor.IsHead 4 2 a) (ht : Cbor.IsHead 0 schemaType t)
    (hcv : it = headAt it.ptr it.remaining 4 2 a) (hbuf : buf.drop it.ptr = a ++ (t ++ rest))
    (hnext : preparseBytes (it.ptr + a.length + t.length) 1 rest = .done cv) :
    decodeEid (ω := ω) it buf = (decodeSsp schemaType cv >>= fun ssp =>
      leaveContainer it ssp.2 >>= fun next => pure (ssp.1, next)) buf := by
  have hbuft := drop_add_of_append hbuf
  have hvalid := validateCborFixedArrayLength_array (ω := ω) it.remaining 2 2 ha hbuf
  have henter := enterContainer_two (ω := ω) it.remaining ha hbuf
    (preparseBytes_head ht (by omega) _ 2 _)
  have hfirst := decodeUint_next (ω := ω) ht hbuft le_rfl (by norm_num [uint32Max]) hnext
  rw [if_neg (by omega), ← hcv] at hvalid
  rw [← hcv] at henter
  unfold decodeEid
  rw [bind_of_done hvalid, bind_of_done henter, bind_of_done hfirst]

theorem decodeEid_ssp {it cv : CborValue} {a t x : List UInt8} {schemaType : ℕ} {eid : Eid}
    (ha : Cbor.IsHead 4 2 a) (ht : Cbor.IsHead 0 schemaType t)
    (hcv : it = headAt it.ptr it.remaining 4 2 a) (hbuf : buf.drop it.ptr = a ++ (t ++ (x ++ rest)))
    (hnext : preparseBytes (it.ptr + a.length + t.length) 1 (x ++ rest) = .done cv)
    (hssp : decodeSsp (ω := ω) schemaType cv buf = ([], .done (eid, .atEnd (cv.ptr + x.length)))) :
    decodeEid (ω := ω) it buf = pairNext it (it.ptr + (a ++ (t ++ x)).length) eid buf := by
  have hptr := (preparseBytes_done hnext).1
  have hcontainer : it.type.isContainer = true := by rw [hcv]; rfl
  rw [decodeEid_array ha ht hcv hbuf hnext, bind_of_done hssp]
  simp only
  rw [leaveContainer_pair hcontainer, hptr, List.length_append, List.length_append]
  simp only [Nat.add_assoc]

/-- The bytes of an endpoint id are decoded to it, and the cursor goes on behind them. -/
theorem decodeEid_item {it : CborValue} {eid : Eid} {item : List UInt8} (h : EidItem eid item)
    (hbuf : buf.drop it.ptr = item ++ rest)
    (hit : preparseBytes it.ptr it.remaining (item ++ rest) = .done it) :
    decodeEid (ω := ω) it buf = pairNext it (it.ptr + item.length) eid buf := by
  have hhead : ∀ {a x : List UInt8}, Cbor.IsHead 4 2 a → item = a ++ x →
      it = headAt it.ptr it.remaining 4 2 a := by
    rintro a x ha rfl
    rw [List.append_assoc, preparseBytes_head ha (by omega)] at hit
    exact (Ending.done.inj hit).symm
  cases h with
  | @null a t x ha ht hx =>
    have hcv := hhead ha rfl
    rw [List.append_assoc, List.append_assoc] at hbuf
    have hbufx := drop_add_of_append (drop_add_of_append hbuf)
    exact decodeEid_ssp ha ht hcv hbuf (preparseBytes_head hx (by omega) _ 1 rest)
      (decodeDtnSsp_null hx rfl hbufx)
  | @dtn a t s x ha ht hx =>
    have hcv := hhead ha rfl
    rw [List.append_assoc, List.append_assoc] at hbuf
    have hbufx := drop_add_of_append (drop_add_of_append hbuf)
    obtain ⟨cv, hnext, htype⟩ : ∃ cv, preparseBytes (it.ptr + a.length + t.length) 1 (x ++ rest) =
        .done cv ∧ cv.type = .textString := by
      cases hx with
      | whole hh =>
        rw [List.append_assoc]
        exact ⟨_, preparseBytes_head hh (by omega) _ 1 _, rfl⟩
      | chunked hc => exact ⟨_, preparseBytes_marker (show 2 ≤ 3 by omega) (by omega) _ 1 _, rfl⟩
    obtain ⟨hptr, hremaining, -⟩ := preparseBytes_done hnext
    exact decodeEid_ssp ha ht hcv hbuf hnext
      (decodeDtnSsp_text hx htype hremaining (by rw [hptr]; exact hbufx)
        (by rw [hptr, hremaining]; exact hnext))
  | @numbers a t b x y schemaType makeEid n m hscheme ha ht hb hx hy =>
    have hcv := hhead ha rfl
    simp only [List.append_assoc] at hbuf
    have hbufb := drop_add_of_append (drop_add_of_append hbuf)
    have hnext : preparseBytes (it.ptr + a.length + t.length) 1 ((b ++ (x ++ y)) ++ rest) =
        .done (headAt (it.ptr + a.length + t.length) 1 4 2 b) := by
      rw [List.append_assoc]
      exact preparseBytes_head hb (by omega) _ 1 _
    refine decodeEid_ssp ha ht hcv (by simpa using hbuf) hnext ?_
    have hnumbers := decodeNumbersSsp_item (ω := ω) makeEid hb hx hy hbufb
    cases hscheme with
    | ipn => exact hnumbers
    | imc => exact hnumbers

/-- An array of the number of `dtn` and an item that is neither a number nor a text. -/
inductive DtnOther : List UInt8 → Prop
  | mk {a t x} (ha : Cbor.IsHead 4 2 a) (ht : Cbor.IsHead 0 schemaTypeDtn t) (hx : Cbor.Items 1 x)
      (hnumber : ∀ v, ¬ Cbor.IsHead 0 v x) (htext : ∀ s, ¬ TextItem s x) : DtnOther (a ++ (t ++ x))

/-- The decoder leaves such an array before its end. -/
theorem decodeEid_dtnOther {it : CborValue} {item : List UInt8} (h : DtnOther item)
    (hbuf : buf.drop it.ptr = item ++ rest)
    (hit : preparseBytes it.ptr it.remaining (item ++ rest) = .done it) :
    decodeEid (ω := ω) it buf = ([], .stop .abort) := by
  cases h with
  | @mk a t x ha ht hx hnumber htext =>
    rw [List.append_assoc, preparseBytes_head ha (by omega)] at hit
    have hcv := (Ending.done.inj hit).symm
    rw [List.append_assoc, List.append_assoc] at hbuf
    have hbufx := drop_add_of_append (drop_add_of_append hbuf)
    obtain ⟨cv, hnext, hptr⟩ := preparseBytes_items hx (it.ptr + a.length + t.length) 1 rest
    have hother : cv.type ≠ .integer ∧ cv.type ≠ .textString := by
      cases itemAt_of_items hx hnext with
      | uint hh _ => exact absurd hh (hnumber _)
      | text hs _ => exact absurd hs (htext _)
      | array hh _ hcv => rw [hcv]; simp [CborType.ofMajor]
      | other hint htext _ _ => exact ⟨hint, htext⟩
    obtain ⟨b, tail, hb⟩ := hx.exists_cons
    have hssp : decodeSsp (ω := ω) schemaTypeDtn cv buf = ([], .done (makeEidNull, cv)) :=
      decodeDtnSsp_other hother.1 hother.2 (by rw [hptr, hbufx, hb, List.cons_append])
    rw [decodeEid_array ha ht hcv hbuf hnext, bind_of_done hssp]
    simp only
    rw [leaveContainer_early (preparseBytes_done hnext).2.2.1]
    rfl

/-! ## Everything else -/

theorem type_of_uint {x : List UInt8} {v ptr remaining : ℕ} {cv : CborValue}
    (hx : Cbor.IsHead 0 v x) (hcv : preparseBytes ptr remaining (x ++ rest) = .done cv) :
    cv.type = .integer := by
  rw [preparseBytes_head hx (by omega)] at hcv
  exact Ending.done.inj hcv ▸ rfl

theorem type_of_text {s x : List UInt8} {ptr remaining : ℕ} {cv : CborValue} (hx : TextItem s x)
    (hcv : preparseBytes ptr remaining (x ++ rest) = .done cv) : cv.type = .textString := by
  cases hx with
  | whole hh =>
    rw [List.append_assoc, preparseBytes_head hh (by omega)] at hcv
    exact Ending.done.inj hcv ▸ rfl
  | @chunked c hc =>
    have hmarker := preparseBytes_marker (show 2 ≤ 3 by omega) (by omega) ptr remaining
      ((c ++ [0xff]) ++ rest)
    rw [List.cons_append] at hcv
    exact Ending.done.inj (hmarker.symm.trans hcv) ▸ rfl

/-- An item that is no array of known length is refused where one is expected. -/
theorem validate_other {it : CborValue} {item : List UInt8} {lo hi : ℕ} (hitem : Cbor.Items 1 item)
    (hbuf : buf.drop it.ptr = item ++ rest) (htype : it.type ≠ .array ∨ it.unknownLength = true) :
    validateCborFixedArrayLength (ω := ω) it lo hi buf = ([], .stop .fail) := by
  obtain ⟨b, tail, rfl⟩ := hitem.exists_cons
  exact validateCborFixedArrayLength_other htype hbuf

theorem decodeUint_item {it : CborValue} {item : List UInt8} (hitem : Cbor.Items 1 item)
    (hbuf : buf.drop it.ptr = item ++ rest) (htype : it.type ≠ .integer) :
    decodeUint (ω := ω) it buf = ([], .stop .fail) := by
  obtain ⟨b, tail, rfl⟩ := hitem.exists_cons
  exact decodeUint_other htype hbuf

/-- The second item of an array of two is no number. -/
theorem decodeNumbersSsp_second (makeEid : ℕ → ℕ → Eid) {b x y : List UInt8} {ptr n : ℕ}
    {cv : CborValue} (hb : Cbor.IsHead 4 2 b) (hx : Cbor.IsHead 0 n x) (hy : Cbor.Items 1 y)
    (hbuf : buf.drop ptr = b ++ (x ++ (y ++ rest)))
    (hcv : preparseBytes (ptr + b.length + x.length) 1 (y ++ rest) = .done cv)
    (htype : cv.type ≠ .integer) :
    decodeNumbersSsp (ω := ω) makeEid (headAt ptr 1 4 2 b) buf = ([], .stop .fail) := by
  have hbufx := drop_add_of_append hbuf
  have hbufy := drop_add_of_append hbufx
  have hptr := (preparseBytes_done hcv).1
  have hvalid := validateCborFixedArrayLength_array (ω := ω) 1 2 2 hb hbuf
  have henter := enterContainer_two (ω := ω) 1 hb hbuf (preparseBytes_head hx (by omega) _ 2 _)
  have hfirst := decodeUint_next (ω := ω) hx hbufx le_rfl (by norm_num [uint32Max]) hcv
  rw [if_neg (by omega)] at hvalid
  unfold decodeNumbersSsp
  rw [bind_of_done hvalid, bind_of_done henter, bind_of_done hfirst]
  exact bind_of_stop (decodeUint_item hy (by rw [hptr]; exact hbufy) htype)

theorem decodeNumbersSsp_first (makeEid : ℕ → ℕ → Eid) {b x : List UInt8} {ptr : ℕ}
    {cv : CborValue} (hb : Cbor.IsHead 4 2 b) (hx : Cbor.Items 1 x)
    (hbuf : buf.drop ptr = b ++ (x ++ rest))
    (hcv : preparseBytes (ptr + b.length) 2 (x ++ rest) = .done cv) (htype : cv.type ≠ .integer) :
    decodeNumbersSsp (ω := ω) makeEid (headAt ptr 1 4 2 b) buf = ([], .stop .fail) := by
  have hbufx := drop_add_of_append hbuf
  have hptr := (preparseBytes_done hcv).1
  have hvalid := validateCborFixedArrayLength_array (ω := ω) 1 2 2 hb hbuf
  rw [if_neg (by omega)] at hvalid
  unfold decodeNumbersSsp
  rw [bind_of_done hvalid, bind_of_done (enterContainer_two (ω := ω) 1 hb hbuf hcv)]
  exact bind_of_stop (decodeUint_item hx (by rw [hptr]; exact hbufx) htype)

/-- What is not an array of two numbers is refused. -/
theorem decodeNumbersSsp_fails (makeEid : ℕ → ℕ → Eid) {cv : CborValue} {item : List UInt8} {ptr : ℕ}
    (hitem : Cbor.Items 1 item) (hbuf : buf.drop ptr = item ++ rest)
    (hcv : preparseBytes ptr 1 (item ++ rest) = .done cv)
    (hnot : ∀ b n x m y, Cbor.IsHead 4 2 b → Cbor.IsHead 0 n x → Cbor.IsHead 0 m y →
      item ≠ b ++ (x ++ y)) : decodeNumbersSsp (ω := ω) makeEid cv buf = ([], .stop .fail) := by
  obtain ⟨hptr, hremaining, -⟩ := preparseBytes_done hcv
  have hrefused : ∀ {d : ℕ → Decode ω (Eid × CborValue)},
      validateCborFixedArrayLength (ω := ω) cv 2 2 buf = ([], .stop .fail) →
      (validateCborFixedArrayLength cv 2 2 >>= d) buf = ([], .stop .fail) := bind_of_stop
  have hbuf' : buf.drop cv.ptr = item ++ rest := by rw [hptr]; exact hbuf
  cases itemAt_of_items hitem hcv with
  | uint hh hat => exact hrefused (validate_other hitem hbuf' (.inl (by rw [hat]; simp [CborType.ofMajor])))
  | text hx htype => exact hrefused (validate_other hitem hbuf' (.inl (by simp [htype])))
  | other _ _ harray _ => exact hrefused (validate_other hitem hbuf' harray)
  | @array v b body hb hbody hat =>
    rw [hptr, hremaining] at hat
    subst hat
    rw [List.append_assoc] at hbuf
    by_cases hv : v = 2
    · subst hv
      obtain ⟨x, y, rfl, hx, hy⟩ := hbody.cons_inv
      rw [List.append_assoc] at hbuf
      obtain ⟨cvx, hcvx, -⟩ := preparseBytes_items hx (ptr + b.length) 2 (y ++ rest)
      by_cases hint : cvx.type = .integer
      · cases itemAt_of_items hx hcvx with
        | @uint n x hhx _ =>
          obtain ⟨cvy, hcvy, -⟩ := preparseBytes_items hy (ptr + b.length + x.length) 1 rest
          by_cases hint' : cvy.type = .integer
          · cases itemAt_of_items hy hcvy with
            | uint hhy _ => exact absurd rfl (hnot b n x _ y hb hhx hhy)
            | text _ htype => simp [hint'] at htype
            | array _ _ hat => rw [hat] at hint'; cases hint'
            | other hne _ _ _ => exact absurd hint' hne
          · exact decodeNumbersSsp_second makeEid hb hhx hy hbuf hcvy hint'
        | text _ htype => simp [hint] at htype
        | array _ _ hat => rw [hat] at hint; cases hint
        | other hne _ _ _ => exact absurd hint hne
      · exact decodeNumbersSsp_first makeEid hb hx hbuf hcvx hint
    · have hvalid := validateCborFixedArrayLength_array (ω := ω) 1 2 2 hb hbuf
      rw [if_pos (by omega)] at hvalid
      exact hrefused hvalid

/-- A scheme-specific part that makes no endpoint id is refused, or left where it is. -/
theorem decodeSsp_fails {cv : CborValue} {a t x : List UInt8} {schemaType ptr : ℕ}
    (ha : Cbor.IsHead 4 2 a) (ht : Cbor.IsHead 0 schemaType t) (hx : Cbor.Items 1 x)
    (hbuf : buf.drop ptr = x ++ rest) (hcv : preparseBytes ptr 1 (x ++ rest) = .done cv)
    (hnot : ∀ eid, ¬ EidItem eid (a ++ (t ++ x))) (hother : ¬ DtnOther (a ++ (t ++ x))) :
    decodeSsp (ω := ω) schemaType cv buf = ([], .stop .fail) := by
  obtain ⟨hptr, hremaining, -⟩ := preparseBytes_done hcv
  have hnumbers : ∀ {schemaType makeEid}, NumbersScheme schemaType makeEid →
      Cbor.IsHead 0 schemaType t → decodeNumbersSsp (ω := ω) makeEid cv buf = ([], .stop .fail) := by
    intro schemaType makeEid hscheme ht
    refine decodeNumbersSsp_fails makeEid hx hbuf hcv fun b n x' m y hb hx' hy heq => ?_
    rw [heq] at hnot
    exact hnot _ (.numbers hscheme ha ht hb hx' hy)
  unfold decodeSsp
  split_ifs with hdtn hipn himc
  · rw [hdtn] at ht
    cases itemAt_of_items hx hcv with
    | @uint v h hh hat =>
      rw [hremaining] at hat
      refine decodeDtnSsp_number hh (fun hv => ?_) hat (by rw [hptr]; exact hbuf)
      rw [hv] at hh
      exact hnot _ (.null ha ht hh)
    | text hs _ => exact absurd (.dtn ha ht hs) (hnot _)
    | array hh _ hat =>
      refine absurd (.mk ha ht hx (fun v hv => ?_) (fun s hs => ?_)) hother
      · have htype := type_of_uint hv hcv
        rw [hat] at htype
        cases htype
      · have htype := type_of_text hs hcv
        rw [hat] at htype
        cases htype
    | other hint htext _ _ =>
      exact absurd (.mk ha ht hx (fun v hv => hint (type_of_uint hv hcv))
        (fun s hs => htext (type_of_text hs hcv))) hother
  · exact hnumbers .ipn (hipn ▸ ht)
  · exact hnumbers .imc (himc ▸ ht)
  · rfl

/-- Every other item is refused. -/
theorem decodeEid_fails {it : CborValue} {item : List UInt8} (hitem : Cbor.Items 1 item)
    (hbuf : buf.drop it.ptr = item ++ rest)
    (hit : preparseBytes it.ptr it.remaining (item ++ rest) = .done it)
    (hnot : ∀ eid, ¬ EidItem eid item) (hother : ¬ DtnOther item) :
    decodeEid (ω := ω) it buf = ([], .stop .fail) := by
  have hrefused : validateCborFixedArrayLength (ω := ω) it 2 2 buf = ([], .stop .fail) →
      decodeEid (ω := ω) it buf = ([], .stop .fail) := bind_of_stop
  cases itemAt_of_items hitem hit with
  | uint hh hat =>
    exact hrefused (validate_other hitem hbuf (.inl (by rw [hat]; simp [CborType.ofMajor])))
  | text hx htype => exact hrefused (validate_other hitem hbuf (.inl (by simp [htype])))
  | other _ _ harray _ => exact hrefused (validate_other hitem hbuf harray)
  | @array v a body ha hbody hat =>
    rw [List.append_assoc] at hbuf
    have hvalid := validateCborFixedArrayLength_array (ω := ω) it.remaining 2 2 ha hbuf
    rw [← hat] at hvalid
    by_cases hv : v = 2
    · subst hv
      obtain ⟨t, x, rfl, ht, hx⟩ := hbody.cons_inv
      rw [List.append_assoc] at hbuf
      obtain ⟨cvt, hcvt, -⟩ := preparseBytes_items ht (it.ptr + a.length) 2 (x ++ rest)
      by_cases hint : cvt.type = .integer
      · cases itemAt_of_items ht hcvt with
        | @uint schemaType t hht _ =>
          obtain ⟨cvx, hcvx, -⟩ := preparseBytes_items hx (it.ptr + a.length + t.length) 1 rest
          have hbufx := drop_add_of_append (drop_add_of_append hbuf)
          rw [decodeEid_array ha hht hat hbuf hcvx]
          exact bind_of_stop (decodeSsp_fails ha hht hx hbufx hcvx hnot hother)
        | text _ htype => simp [hint] at htype
        | array _ _ hat => rw [hat] at hint; cases hint
        | other hne _ _ _ => exact absurd hint hne
      · have hptr := (preparseBytes_done hcvt).1
        have henter := enterContainer_two (ω := ω) it.remaining ha hbuf hcvt
        rw [← hat] at henter
        rw [if_neg (by omega)] at hvalid
        unfold decodeEid
        rw [bind_of_done hvalid, bind_of_done henter]
        exact bind_of_stop (decodeUint_item ht (by rw [hptr]; exact drop_add_of_append hbuf) hint)
    · rw [if_pos (by omega)] at hvalid
      exact hrefused hvalid

/-- The cursor at an item of an array of known length, or at the only item of a buffer, with as many
well-formed items behind it as the array has left. -/
structure AtItem (buf : List UInt8) (it : CborValue) (item others rest : List UInt8) : Prop where
  bytes : buf.drop it.ptr = item ++ (others ++ rest)
  item : Cbor.Items 1 item
  others : Cbor.Items (it.remaining - 1) others
  remaining_pos : 1 ≤ it.remaining
  remaining_lt : it.remaining < uint32Max
  parsed : preparseBytes it.ptr it.remaining (buf.drop it.ptr) = .done it

/-- Behind an item there is another one to go on with, or the end of the array. -/
theorem AtItem.next {it : CborValue} {item others : List UInt8} (h : AtItem buf it item others rest)
    (htype : it.type ≠ .tag) {α : Type} (a : α) :
    ∃ next, pairNext (ω := ω) it (it.ptr + item.length) a buf = ([], .done (a, next)) ∧
      next.ptr = it.ptr + item.length := by
  by_cases hlast : it.remaining = 1
  · exact ⟨_, pairNext_last htype hlast _ a, rfl⟩
  · have hpos := h.remaining_pos
    obtain ⟨n, hn⟩ : ∃ n, it.remaining - 1 = n + 1 := ⟨it.remaining - 2, by omega⟩
    have hothers := h.others
    rw [hn] at hothers
    obtain ⟨next, hnext, hptr⟩ := preparseBytes_items hothers (it.ptr + item.length)
      (it.remaining - 1) rest
    have hvalue : preparseValue (ω := ω) (it.ptr + item.length) (it.remaining - 1) buf =
        ([], .done next) := by
      rw [preparseValue, drop_add_of_append h.bytes, hnext]
    refine ⟨next, ?_, hptr⟩
    rw [pairNext, preparseNextValue_more htype (by omega) h.remaining_lt, bind_of_done hvalue]
    rfl

end

/-- Exactly the endpoint ids are decoded, with the cursor behind them, and everything else is
refused. -/
structure EidDecoded (buf : List UInt8) (it : CborValue) (item : List UInt8) : Prop where
  accepts : ∀ eid, EidItem eid item → ∃ next, decodeEid (ω := Unit) it buf = ([], .done (eid, next)) ∧
    next.ptr = it.ptr + item.length
  rejects : (∀ eid, ¬ EidItem eid item) → decodeEid (ω := Unit) it buf = ([], .stop .fail)

/-- The decoder takes exactly the grammar, unless the item is an array of the number of `dtn` and
something that is neither a number nor a text. -/
theorem decodeEid_exact_iff (buf : List UInt8) (it : CborValue) (item others rest : List UInt8)
    (h : AtItem buf it item others rest) : EidDecoded buf it item ↔ ¬ DtnOther item := by
  have hit := h.parsed
  rw [h.bytes] at hit
  constructor
  · intro hdecoded hother
    have habort := decodeEid_dtnOther (ω := Unit) hother h.bytes hit
    by_cases hsome : ∃ eid, EidItem eid item
    · obtain ⟨eid, heid⟩ := hsome
      obtain ⟨next, hdone, -⟩ := hdecoded.accepts eid heid
      rw [habort] at hdone
      cases hdone
    · have hfail := hdecoded.rejects (fun eid heid => hsome ⟨eid, heid⟩)
      rw [habort] at hfail
      cases hfail
  · intro hother
    refine ⟨fun eid heid => ?_, fun hnot => decodeEid_fails h.item h.bytes hit hnot hother⟩
    have htype : it.type ≠ .tag := by
      have harray : ∀ {a x : List UInt8}, Cbor.IsHead 4 2 a → item = a ++ x → it.type ≠ .tag := by
        rintro a x ha rfl
        rw [List.append_assoc, preparseBytes_head ha (by omega)] at hit
        rw [← Ending.done.inj hit]
        simp [CborType.ofMajor]
      cases heid with
      | null ha _ _ => exact harray ha rfl
      | dtn ha _ _ => exact harray ha rfl
      | numbers _ ha _ _ _ _ => exact harray ha rfl
    rw [decodeEid_item heid h.bytes hit]
    exact h.next htype eid

/-- `ipn:5.1` as the second item of an array of three, the node number in a longer form than it
needs. -/
theorem decodeEid_exact_iff_ipn :
    EidDecoded [0x83, 0, 0x82, 2, 0x82, 0x18, 5, 1, 7] (headAt 2 2 4 2 [0x82])
        [0x82, 2, 0x82, 0x18, 5, 1] ↔ ¬ DtnOther [0x82, 2, 0x82, 0x18, 5, 1] := by
  have htwo : Cbor.Items 2 [0x18, 5, 1] :=
    .number (show Cbor.IsHead 0 5 [0x18, 5] by decide) (.inl rfl)
      (.number (show Cbor.IsHead 0 1 [1] by decide) (.inl rfl) .nil)
  have hssp : Cbor.Items 1 [0x82, 0x18, 5, 1] :=
    .array (show Cbor.IsHead 4 2 [0x82] by decide) htwo .nil
  have hitem : Cbor.Items 1 [0x82, 2, 0x82, 0x18, 5, 1] :=
    .array (show Cbor.IsHead 4 2 [0x82] by decide)
      (.number (show Cbor.IsHead 0 2 [2] by decide) (.inl rfl) hssp) .nil
  exact decodeEid_exact_iff _ _ _ [7] [] ⟨rfl, hitem,
    .number (show Cbor.IsHead 0 7 [7] by decide) (.inl rfl) .nil, by decide, by decide, by decide⟩

/-- The item `-1` behind the number of `dtn` is not refused. -/
theorem decodeEid_dtn_negative : AtItem [0x82, 1, 0x20] (headAt 0 1 4 2 [0x82]) [0x82, 1, 0x20] [] [] ∧
    ¬ EidDecoded [0x82, 1, 0x20] (headAt 0 1 4 2 [0x82]) [0x82, 1, 0x20] := by
  have hitem : Cbor.Items 1 [0x82, 1, 0x20] :=
    .array (show Cbor.IsHead 4 2 [0x82] by decide)
      (.number (show Cbor.IsHead 0 1 [1] by decide) (.inl rfl)
        (.number (show Cbor.IsHead 1 0 [0x20] by decide) (.inr rfl) .nil)) .nil
  have habort : decodeEid (ω := Unit) (headAt 0 1 4 2 [0x82]) [0x82, 1, 0x20] =
      ([], .stop .abort) := rfl
  refine ⟨⟨rfl, hitem, .nil, by decide, by decide, by decide⟩, fun h => ?_⟩
  have hfail := h.rejects (fun eid heid => ?_)
  · rw [habort] at hfail
    cases hfail
  · have hdone : decodeEid (ω := Unit) (headAt 0 1 4 2 [0x82]) [0x82, 1, 0x20] =
        pairNext (headAt 0 1 4 2 [0x82]) 3 eid [0x82, 1, 0x20] :=
      decodeEid_item heid (show [0x82, 1, 0x20] = [0x82, 1, 0x20] ++ [] from rfl) rfl
    rw [habort, pairNext_last (by simp [CborType.ofMajor]) rfl] at hdone
    cases hdone

end Dtnme.Bundling
