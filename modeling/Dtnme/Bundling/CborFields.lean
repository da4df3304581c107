import Dtnme.Bundling.CborSpans

/-! # Fields in a row

The elements of an array of known length, one after another: where the buffer goes on with a field,
the field is decoded and the cursor comes to the next one.
-/

namespace Dtnme.Bundling.TinyCbor
open Library Naming Decoder

/-- The bytes begin with the head of an item that is no simple value. -/
def HeadFirst (bytes : List UInt8) : Prop :=
  ∃ major v h tail, bytes = h ++ tail ∧ Cbor.IsHead major v h ∧ major ≠ 7

/-- The parser came to a place, with so many items of the array left, and to what the buffer goes on
with. -/
structure At (buf : List UInt8) (p r : ℕ) (bytes : List UInt8) (it : CborValue) : Prop where
  ptr_eq : it.ptr = p
  remaining_eq : it.remaining = r
  drop_eq : buf.drop p = bytes
  parsed : preparseBytes p r bytes = .done it

section
variable {ω : Type} {buf rest : List UInt8} {it : CborValue} {p r : ℕ}

theorem headFirst_of {major v : ℕ} {h : List UInt8} (hh : Cbor.IsHead major v h) (hmajor : major ≠ 7)
    (rest : List UInt8) : HeadFirst (h ++ rest) := ⟨major, v, h, rest, rfl, hh, hmajor⟩

theorem HeadFirst.at_ {bytes : List UInt8} (h : HeadFirst bytes) (hbuf : buf.drop p = bytes) (r : ℕ) :
    ∃ it, preparseValue (ω := ω) p r buf = ([], .done it) ∧ At buf p r bytes it := by
  obtain ⟨major, v, hd, tail, rfl, hh, hmajor⟩ := h
  have hparse := preparseBytes_head hh (fun hseven => absurd hseven hmajor) p r tail
  exact ⟨_, by rw [preparseValue, hbuf, hparse], rfl, rfl, hbuf, hparse⟩

theorem At.eq_headAt {major v : ℕ} {h : List UInt8} (hat : At buf p r (h ++ rest) it)
    (hh : Cbor.IsHead major v h) (hmajor : major ≠ 7) : it = headAt p r major v h := by
  have hparse := hat.parsed
  rw [preparseBytes_head hh (fun hseven => absurd hseven hmajor)] at hparse
  exact (Ending.done.inj hparse).symm

/-- Behind a field the cursor comes to the next one. -/
theorem At.pairNext {α : Type} {x : List UInt8} (hat : At buf p r (x ++ rest) it)
    (htype : it.type ≠ .tag) (hlo : 2 ≤ r) (hhi : r < uint32Max) (hrest : HeadFirst rest) (a : α) :
    ∃ next, pairNext (ω := ω) it (p + x.length) a buf = ([], .done (a, next)) ∧
      At buf (p + x.length) (r - 1) rest next := by
  obtain ⟨next, hvalue, hnext⟩ := hrest.at_ (ω := ω) (drop_add_of_append hat.drop_eq) (r - 1)
  refine ⟨next, ?_, hnext⟩
  rw [TinyCbor.pairNext, preparseNextValue_more htype (hat.remaining_eq ▸ hlo)
    (hat.remaining_eq ▸ hhi), hat.remaining_eq, bind_of_done hvalue]
  rfl

theorem decodeUint_at {v : ℕ} {h : List UInt8} (hh : Cbor.IsHead 0 v h)
    (hat : At buf p r (h ++ rest) it) (hlo : 2 ≤ r) (hhi : r < uint32Max) (hrest : HeadFirst rest) :
    ∃ next, decodeUint (ω := ω) it buf = ([], .done (v, next)) ∧
      At buf (p + h.length) (r - 1) rest next := by
  obtain rfl := hat.eq_headAt hh (by omega)
  rw [decodeUint_head hh hat.drop_eq]
  exact hat.pairNext (by simp [CborType.ofMajor]) hlo hhi hrest v

theorem enterContainer_at {v : ℕ} {a : List UInt8} (r : ℕ) (ha : Cbor.IsHead 4 v a)
    (hbuf : buf.drop p = a ++ rest) (hlo : 1 ≤ v) (hhi : v < uint32Max) (hrest : HeadFirst rest) :
    ∃ next, enterContainer (ω := ω) (headAt p r 4 v a) buf = ([], .done next) ∧
      At buf (p + a.length) v rest next := by
  rw [enterContainer_array ha hlo hhi]
  exact hrest.at_ (drop_add_of_append hbuf) v

theorem dupString_at {major : ℕ} {h s : List UInt8} (hh : Cbor.IsHead major s.length h)
    (hmajor : major = 2 ∨ major = 3) (hat : At buf p r (h ++ (s ++ rest)) it) (hlo : 2 ≤ r)
    (hhi : r < uint32Max) (hrest : HeadFirst rest) :
    ∃ next, dupString (ω := ω) it buf = ([], .done (s, next)) ∧
      At buf (p + (h ++ s).length) (r - 1) rest next := by
  have htype : it.type ≠ .tag := by
    rw [hat.eq_headAt hh (by omega)]
    rcases hmajor with rfl | rfl <;> simp [CborType.ofMajor]
  have hstring : dupString (ω := ω) (headAt p r major s.length h) buf = _ :=
    dupString_head hh hat.drop_eq
  rw [← hat.eq_headAt hh (by omega), ← List.length_append] at hstring
  rw [hstring]
  rw [← List.append_assoc] at hat
  exact hat.pairNext htype hlo hhi hrest s

theorem headFirst_eid {eid : Eid} {item : List UInt8} (h : EidItem eid item) (rest : List UInt8) :
    HeadFirst (item ++ rest) := by
  cases h with
  | null ha _ _ =>
    rw [List.append_assoc]
    exact headFirst_of ha (by omega) _
  | dtn ha _ _ =>
    rw [List.append_assoc]
    exact headFirst_of ha (by omega) _
  | numbers _ ha _ _ _ _ =>
    rw [List.append_assoc]
    exact headFirst_of ha (by omega) _

theorem eidItem_type {eid : Eid} {item : List UInt8} (h : EidItem eid item)
    (hat : At buf p r (item ++ rest) it) : it.type = .array := by
  cases h with
  | null ha _ _ =>
    rw [List.append_assoc] at hat
    rw [hat.eq_headAt ha (by omega)]
    rfl
  | dtn ha _ _ =>
    rw [List.append_assoc] at hat
    rw [hat.eq_headAt ha (by omega)]
    rfl
  | numbers _ ha _ _ _ _ =>
    rw [List.append_assoc] at hat
    rw [hat.eq_headAt ha (by omega)]
    rfl

theorem decodeEid_at {eid : Eid} {item : List UInt8} (h : EidItem eid item)
    (hat : At buf p r (item ++ rest) it) (hlo : 2 ≤ r) (hhi : r < uint32Max) (hrest : HeadFirst rest) :
    ∃ next, decodeEid (ω := ω) it buf = ([], .done (eid, next)) ∧
      At buf (p + item.length) (r - 1) rest next := by
  have hitem : decodeEid (ω := ω) it buf = _ := decodeEid_item h (by rw [hat.ptr_eq]; exact hat.drop_eq)
    (by rw [hat.ptr_eq, hat.remaining_eq]; exact hat.parsed)
  rw [hitem, hat.ptr_eq]
  exact hat.pairNext (by simp [eidItem_type h hat]) hlo hhi hrest eid

/-! ## Values, whatever is assigned -/

/-- A decoder ends with a value. -/
def Yields {α : Type} (d : Decode ω α) (buf : List UInt8) (a : α) : Prop := (d buf).2 = .done a

theorem yields_pure {α : Type} (a : α) : Yields (pure a : Decode ω α) buf a := rfl

theorem yields_assign (w : ω) : Yields (assign w : Decode ω Unit) buf () := rfl

theorem Yields.eq {α : Type} {d : Decode ω α} {a : α} (h : Yields d buf a) :
    d buf = ((d buf).1, .done a) := Prod.ext rfl h

theorem yields_of {α : Type} {d : Decode ω α} {log : List ω} {a : α} (h : d buf = (log, .done a)) :
    Yields d buf a := by
  unfold Yields
  rw [h]

theorem Yields.bind {α β : Type} {d : Decode ω α} {f : α → Decode ω β} {a : α} {b : β}
    (hd : Yields d buf a) (hf : Yields (f a) buf b) : Yields (d >>= f) buf b := by
  unfold Yields
  rw [bind_done hd.eq]
  exact hf

theorem Yields.of_bind {α β : Type} {d : Decode ω α} {f : α → Decode ω β} {b : β}
    (h : Yields (d >>= f) buf b) : ∃ a, Yields d buf a ∧ Yields (f a) buf b := by
  obtain ⟨log, a, log', hd, hf, -⟩ := bind_eq_done h.eq
  exact ⟨a, yields_of hd, yields_of hf⟩

end

end Dtnme.Bundling.TinyCbor
