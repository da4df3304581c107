import Dtnme.Bundling.CborFields

/-! # Arrays of known length

The cursor of an array stands at the items that are left, well-formed ones with whatever follows
the array behind them. Each reader of an item takes it to the next one, and at the end the array can
be left.
-/

namespace Dtnme.Bundling.TinyCbor
open Library Decoder

/-- The cursor at the last `r` items of an array, behind which the buffer goes on with `rest`. -/
structure Stands (buf : List UInt8) (p : ℕ) (rest : List UInt8) (r : ℕ) (items : List UInt8)
    (it : CborValue) : Prop where
  wellFormed : Cbor.Items r items
  small : r < uint32Max
  drop_eq : buf.drop p = items ++ rest
  atEnd : r = 0 → it = .atEnd p
  parsed : r ≠ 0 → preparseBytes p r (items ++ rest) = .done it

section
variable {ω : Type} {buf rest items : List UInt8} {it : CborValue} {p r : ℕ}

theorem Stands.at_ (h : Stands buf p rest (r + 1) items it) : At buf p (r + 1) (items ++ rest) it := by
  have hparsed := h.parsed (Nat.succ_ne_zero r)
  obtain ⟨hptr, hremaining, -⟩ := preparseBytes_done hparsed
  exact ⟨hptr, hremaining, h.drop_eq, hparsed⟩

/-- A cursor comes to stand at items. -/
theorem preparseValue_stands (hitems : Cbor.Items (r + 1) items) (hr : r + 1 < uint32Max)
    (hbuf : buf.drop p = items ++ rest) :
    ∃ it, preparseValue (ω := ω) p (r + 1) buf = ([], .done it) ∧
      Stands buf p rest (r + 1) items it := by
  obtain ⟨it, hparse, -⟩ := preparseBytes_items hitems p (r + 1) rest
  refine ⟨it, by rw [preparseValue, hbuf, hparse], hitems, hr, hbuf, ?_, fun _ => hparse⟩
  intro hzero
  cases hzero

theorem stands_atEnd (hbuf : buf.drop p = rest) : Stands buf p rest 0 [] (.atEnd p) where
  wellFormed := .nil
  small := by norm_num [uint32Max]
  drop_eq := hbuf
  atEnd := fun _ => rfl
  parsed := fun h => absurd rfl h

/-- Behind an item the cursor comes to the others. -/
theorem Stands.next {x : List UInt8} (h : Stands buf p rest (r + 1) (x ++ items) it)
    (htype : it.type ≠ .tag) (hitems : Cbor.Items r items) :
    ∃ next, preparseNextValue (ω := ω) it (p + x.length) buf = ([], .done next) ∧
      Stands buf (p + x.length) rest r items next := by
  have hbuf : buf.drop (p + x.length) = items ++ rest := by
    apply drop_add_of_append
    rw [h.drop_eq, List.append_assoc]
  have hremaining := h.at_.remaining_eq
  cases r with
  | zero =>
    obtain rfl := hitems.eq_nil
    refine ⟨.atEnd (p + x.length), ?_, stands_atEnd hbuf⟩
    rw [preparseNextValue_last htype hremaining]
    rfl
  | succ r =>
    have hsmall := h.small
    rw [preparseNextValue_more htype (by omega) (by omega), hremaining]
    exact preparseValue_stands hitems (by omega) hbuf

theorem Stands.pairNext {α : Type} {x : List UInt8} (h : Stands buf p rest (r + 1) (x ++ items) it)
    (htype : it.type ≠ .tag) (hitems : Cbor.Items r items) (a : α) :
    ∃ next, TinyCbor.pairNext (ω := ω) it (p + x.length) a buf = ([], .done (a, next)) ∧
      Stands buf (p + x.length) rest r items next := by
  obtain ⟨next, hnext, hstands⟩ := h.next (ω := ω) htype hitems
  refine ⟨next, ?_, hstands⟩
  rw [TinyCbor.pairNext, bind_of_done hnext]
  rfl

theorem Stands.eq_headAt {major v : ℕ} {h : List UInt8} (hat : Stands buf p rest (r + 1) (h ++ items) it)
    (hh : Cbor.IsHead major v h) (hform : major = 7 → Cbor.SimpleForm v h) :
    it = headAt p (r + 1) major v h := by
  have hparse := hat.at_.parsed
  rw [List.append_assoc, preparseBytes_head hh hform] at hparse
  exact (Ending.done.inj hparse).symm

/-! ## Numbers and booleans -/

theorem Stands.uint {v : ℕ} {h : List UInt8} (hat : Stands buf p rest (r + 1) (h ++ items) it)
    (hh : Cbor.IsHead 0 v h) (hitems : Cbor.Items r items) :
    ∃ next, decodeUint (ω := ω) it buf = ([], .done (v, next)) ∧
      Stands buf (p + h.length) rest r items next := by
  obtain rfl := hat.eq_headAt hh (by omega)
  rw [decodeUint_head hh (hat.drop_eq.trans (List.append_assoc h items rest))]
  exact hat.pairNext (by simp [CborType.ofMajor]) hitems v

/-- `cbor_value_is_boolean`. -/
def CborValue.IsBoolean (it : CborValue) : Prop :=
  it.type = .simple ∧ it.follows = 0 ∧ (it.value = 20 ∨ it.value = 21)

instance (it : CborValue) : Decidable it.IsBoolean := by
  unfold CborValue.IsBoolean
  infer_instance

def decodeBoolean (it : CborValue) : Decode ω (Bool × CborValue) := do
  dataAvailableToParse it 1
  if it.IsBoolean then
    let next ← advanceFixed it
    pure (it.value == 21, next)
  else fail .fail

/-- The item that a boolean is written as. -/
def booleanBytes (b : Bool) : List UInt8 := Cbor.head 7 (if b then 21 else 20)

theorem booleanBytes_isHead (b : Bool) : Cbor.IsHead 7 (if b then 21 else 20) (booleanBytes b) := by
  cases b <;> decide

theorem booleanBytes_length (b : Bool) : (booleanBytes b).length = 1 := by
  cases b <;> rfl

theorem Stands.boolean {b : Bool} (hat : Stands buf p rest (r + 1) (booleanBytes b ++ items) it)
    (hitems : Cbor.Items r items) :
    ∃ next, decodeBoolean (ω := ω) it buf = ([], .done (b, next)) ∧
      Stands buf (p + (booleanBytes b).length) rest r items next := by
  have hhead := booleanBytes_isHead b
  have hform : Cbor.SimpleForm (if b then 21 else 20) (booleanBytes b) := by
    intro hlong
    rw [booleanBytes_length] at hlong
    cases hlong
  obtain rfl := hat.eq_headAt hhead (fun _ => hform)
  obtain ⟨next, hnext, hstands⟩ := hat.pairNext (ω := ω) (by simp [CborType.ofMajor]) hitems b
  refine ⟨next, ?_, hstands⟩
  have hboolean : (headAt p (r + 1) 7 (if b then 21 else 20) (booleanBytes b)).IsBoolean := by
    cases b <;> exact ⟨rfl, rfl, by simp⟩
  rw [← hnext, decodeBoolean,
    bind_of_done (dataAvailable_head hhead (hat.drop_eq.trans (List.append_assoc _ items rest))),
    if_pos hboolean, advanceFixed, if_neg (by simp [CborType.ofMajor, CborType.isFixedType]),
    headAt_behind hhead]
  cases b <;> rfl

/-! ## Arrays -/

/-- An array among the items: its length is validated, its items can be entered, and behind them the
cursor comes to the others. -/
theorem Stands.array {v lo hi : ℕ} {a body : List UInt8}
    (hat : Stands buf p rest (r + 1) (a ++ (body ++ items)) it) (ha : Cbor.IsHead 4 v a)
    (hbody : Cbor.Items v body) (hitems : Cbor.Items r items) (hv : v < uint32Max) (hlo : lo ≤ v)
    (hhi : v ≤ hi) :
    validateCborFixedArrayLength (ω := ω) it lo hi buf = ([], .done v) ∧
      (∃ inner, enterContainer (ω := ω) it buf = ([], .done inner) ∧
        Stands buf (p + a.length) (items ++ rest) v body inner) ∧
      ∃ next, leaveContainer (ω := ω) it (.atEnd (p + (a ++ body).length)) buf = ([], .done next) ∧
        Stands buf (p + (a ++ body).length) rest r items next := by
  obtain rfl := hat.eq_headAt ha (by omega)
  have hbuf : buf.drop p = a ++ (body ++ (items ++ rest)) := by
    rw [hat.drop_eq, List.append_assoc, List.append_assoc]
  refine ⟨?_, ?_, ?_⟩
  · rw [validateCborFixedArrayLength_array (r + 1) lo hi ha hbuf, if_neg (by omega)]
  · cases v with
    | zero =>
      obtain rfl := hbody.eq_nil
      refine ⟨.atEnd (p + a.length), ?_, stands_atEnd (drop_add_of_append hbuf)⟩
      have hbehind : (headAt p (r + 1) 4 0 a).behind = p + a.length := headAt_behind ha
      unfold enterContainer
      rw [if_neg (by simp [CborType.ofMajor, CborType.isContainer]), if_neg (by simp),
        if_neg (by simp [uint32Max]), if_neg (by simp [CborType.ofMajor]), if_pos (headAt_value), hbehind]
      rfl
    | succ v =>
      rw [enterContainer_array ha (by omega) hv]
      exact preparseValue_stands hbody hv (drop_add_of_append hbuf)
  · rw [← List.append_assoc] at hat
    rw [leaveContainer_atEnd (by simp [CborType.ofMajor, CborType.isContainer])]
    exact hat.next (by simp [CborType.ofMajor]) hitems

/-- An array with too many items for the parser. -/
theorem Stands.enter_fails {v : ℕ} {a : List UInt8} (hat : Stands buf p rest (r + 1) (a ++ items) it)
    (ha : Cbor.IsHead 4 v a) (hv : uint32Max ≤ v) :
    enterContainer (ω := ω) it buf = ([], .stop .fail) := by
  obtain rfl := hat.eq_headAt ha (by omega)
  unfold enterContainer
  rw [if_neg (by simp [CborType.ofMajor, CborType.isContainer]), if_neg (by simp),
    if_pos (show uint32Max ≤ (headAt p (r + 1) 4 v a).value from hv)]
  rfl

/-- A reader that enters an array and leaves it at its end. -/
def decodeArray (minLen maxLen : ℕ) (items : ℕ → CborValue → Decode ω CborValue) (it : CborValue) :
    Decode ω CborValue := do
  let n ← validateCborFixedArrayLength it minLen maxLen
  let inner ← enterContainer it
  let inner ← items n inner
  leaveContainer it inner

/-- Make assignments. -/
def assignAll (ws : List ω) : Decode ω Unit := fun _ => (ws, .done ())

/-- A number, and what is assigned for it. -/
def decodeUintTo (f : ℕ → List ω) (it : CborValue) : Decode ω CborValue := do
  let (v, it) ← decodeUint it
  assignAll (f v)
  pure it

def decodeBooleanTo (f : Bool → List ω) (it : CborValue) : Decode ω CborValue := do
  let (b, it) ← decodeBoolean it
  assignAll (f b)
  pure it

/-- The loop over the numbers of an array. -/
def decodeUintsTo (f : ℕ → List ω) : ℕ → CborValue → Decode ω CborValue
  | 0, it => pure it
  | n + 1, it => decodeUintTo f it >>= decodeUintsTo f n

/-! ## Readers of items -/

/-- A reader takes the cursor over `n` items with these bytes and makes these assignments, whatever
stands behind them. -/
def Decodes (d : CborValue → Decode ω CborValue) (n : ℕ) (x : List UInt8) (ws : List ω) : Prop :=
  Cbor.Items n x ∧ ∀ buf p rest r items it, Stands buf p rest (r + n) (x ++ items) it →
    Cbor.Items r items →
      ∃ next, d it buf = (ws, .done next) ∧ Stands buf (p + x.length) rest r items next

theorem Decodes.nil : Decodes (fun it => (pure it : Decode ω CborValue)) 0 [] [] :=
  ⟨.nil, fun _ _ _ _ _ it h _ => ⟨it, rfl, h⟩⟩

theorem Decodes.bind {d e : CborValue → Decode ω CborValue} {m n : ℕ} {x y : List UInt8}
    {ws us : List ω} (hd : Decodes d m x ws) (he : Decodes e n y us) :
    Decodes (fun it => d it >>= e) (m + n) (x ++ y) (ws ++ us) := by
  refine ⟨hd.1.append he.1, fun buf p rest r items it h hitems => ?_⟩
  rw [List.append_assoc, ← Nat.add_assoc, Nat.add_right_comm] at h
  obtain ⟨mid, hmid, hstands⟩ := hd.2 buf p rest (r + n) (y ++ items) it h
    (Nat.add_comm r n ▸ he.1.append hitems)
  obtain ⟨next, hnext, hlast⟩ := he.2 buf _ rest r items mid hstands hitems
  refine ⟨next, ?_, ?_⟩
  · change (d it >>= e) buf = _
    rw [bind_done hmid, hnext]
  · rwa [List.length_append, ← Nat.add_assoc]

theorem decodes_uint {v : ℕ} (hv : v < 2 ^ 64) (f : ℕ → List ω) :
    Decodes (decodeUintTo f) 1 (Cbor.head 0 v) (f v) := by
  have hh : Cbor.IsHead 0 v (Cbor.head 0 v) := .of_head (by norm_num) hv
  refine ⟨by simpa using Cbor.Items.number hh (.inl rfl) .nil, fun buf p rest r items it h hitems => ?_⟩
  obtain ⟨next, hnext, hstands⟩ := h.uint (ω := ω) hh hitems
  refine ⟨next, ?_, hstands⟩
  change (decodeUint it >>= fun x => assignAll (f x.1) >>= fun _ => pure x.2) buf = _
  rw [bind_of_done hnext, bind_done (show assignAll (f v) buf = (f v, .done ()) from rfl)]
  simp [pure, ret]

theorem decodes_boolean (b : Bool) (f : Bool → List ω) :
    Decodes (decodeBooleanTo f) 1 (booleanBytes b) (f b) := by
  have hitem : Cbor.Items 1 (booleanBytes b) := by
    have hform : Cbor.SimpleForm (if b then 21 else 20) (booleanBytes b) := by
      intro hlong
      rw [booleanBytes_length] at hlong
      cases hlong
    simpa using Cbor.Items.simple (booleanBytes_isHead b) hform .nil
  refine ⟨hitem, fun buf p rest r items it h hitems => ?_⟩
  obtain ⟨next, hnext, hstands⟩ := h.boolean (ω := ω) hitems
  refine ⟨next, ?_, hstands⟩
  change (decodeBoolean it >>= fun x => assignAll (f x.1) >>= fun _ => pure x.2) buf = _
  rw [bind_of_done hnext, bind_done (show assignAll (f b) buf = (f b, .done ()) from rfl)]
  simp [pure, ret]

theorem decodes_uints (f : ℕ → List ω) {values : List ℕ} (hvalues : ∀ v ∈ values, v < 2 ^ 64) :
    Decodes (decodeUintsTo f values.length) values.length (values.flatMap (Cbor.head 0))
      (values.flatMap f) := by
  induction values with
  | nil => exact .nil
  | cons v values ih =>
    have hrest := ih (fun w hw => hvalues w (List.mem_cons_of_mem v hw))
    rw [List.length_cons, List.flatMap_cons, List.flatMap_cons]
    have hall := (decodes_uint (hvalues v List.mem_cons_self) f).bind hrest
    rwa [Nat.add_comm 1 values.length] at hall

theorem Decodes.array {items : ℕ → CborValue → Decode ω CborValue} {v lo hi : ℕ} {x : List UInt8}
    {ws : List ω} (h : Decodes (items v) v x ws) (hv : v < uint32Max) (hlo : lo ≤ v) (hhi : v ≤ hi) :
    Decodes (decodeArray lo hi items) 1 (Cbor.head 4 v ++ x) ws := by
  have hword : v < 2 ^ 64 := hv.trans (by norm_num [uint32Max])
  have ha : Cbor.IsHead 4 v (Cbor.head 4 v) := .of_head (by norm_num) hword
  refine ⟨by simpa using Cbor.Items.array ha h.1 .nil, fun buf p rest r others it hat hothers => ?_⟩
  rw [List.append_assoc] at hat
  obtain ⟨hvalid, ⟨inner, henter, hinner⟩, next, hleave, hnext⟩ :=
    hat.array (ω := ω) ha h.1 hothers hv hlo hhi
  have hinner' : Stands buf (p + (Cbor.head 4 v).length) (others ++ rest) (0 + v) (x ++ []) inner := by
    simpa using hinner
  obtain ⟨final, hfinal, hend⟩ := h.2 buf _ _ 0 [] inner hinner' .nil
  obtain rfl := hend.atEnd rfl
  refine ⟨next, ?_, hnext⟩
  rw [decodeArray, bind_of_done hvalid, bind_of_done henter, bind_done hfinal, Nat.add_assoc,
    ← List.length_append, hleave]
  simp

end

end Dtnme.Bundling.TinyCbor
