import Dtnme.Bundling.CborArrays

/-! # Readers and their grammars

A reader takes the cursor over well-formed items. Those of its grammar it reads, with the value that
they denote; items that it cannot leave abort it, and all others are refused.
-/

namespace Dtnme.Bundling.TinyCbor
open Library Naming Decoder

/-- The cursor stands at `n` items, with `r` others behind them in the array. -/
structure Upcoming (buf : List UInt8) (p : ℕ) (rest : List UInt8) (r n : ℕ) (x others : List UInt8)
    (it : CborValue) : Prop where
  stands : Stands buf p rest (r + n) (x ++ others) it
  items : Cbor.Items n x
  others : Cbor.Items r others

/-- A reader of `n` items settles what they are. -/
structure Decides {ω α : Type} (d : CborValue → Decode ω (α × CborValue)) (n : ℕ)
    (denotes : α → List UInt8 → Prop) (sticks : List UInt8 → Prop) : Prop where
  wellFormed : ∀ {a x}, denotes a x → Cbor.Items n x
  reads : ∀ {buf p rest r x others it a}, Upcoming buf p rest r n x others it → denotes a x →
    ∃ next, d it buf = ([], .done (a, next)) ∧ Stands buf (p + x.length) rest r others next
  aborts : ∀ {buf p rest r x others it}, Upcoming buf p rest r n x others it → sticks x →
    d it buf = ([], .stop .abort)
  refuses : ∀ {buf p rest r x others it}, Upcoming buf p rest r n x others it →
    (∀ a, ¬ denotes a x) → ¬ sticks x → d it buf = ([], .stop .fail)

/-- The reader never aborts. -/
def never (_ : List UInt8) : Prop := False

section
variable {ω α β : Type}

theorem decode_bind_assoc {γ : Type} (d : Decode ω α) (f : α → Decode ω β) (g : β → Decode ω γ) :
    (d >>= f) >>= g = d >>= fun a => f a >>= g := by
  funext buf
  rcases hd : d buf with ⟨log, a | _ | e⟩
  · rw [bind_done hd]
    rcases hf : f a buf with ⟨log', b | _ | e⟩
    · have hdf : (d >>= f) buf = (log ++ log', .done b) := by rw [bind_done hd, hf]
      rw [bind_done hdf, bind_done hf, List.append_assoc]
    · have hdf : (d >>= f) buf = (log ++ log', .more) := by rw [bind_done hd, hf]
      rw [bind_more hdf, bind_more hf]
    · have hdf : (d >>= f) buf = (log ++ log', .stop e) := by rw [bind_done hd, hf]
      rw [bind_stop hdf, bind_stop hf]
  · rw [bind_more hd, bind_more (bind_more hd)]
  · rw [bind_stop hd, bind_stop (bind_stop hd)]

theorem decode_pure_bind (a : α) (f : α → Decode ω β) : (pure a >>= f) = f a := by
  funext buf
  have hpure : (pure a : Decode ω α) buf = ([], .done a) := rfl
  rw [bind_of_done hpure]

theorem Upcoming.first {buf rest x y others : List UInt8} {p r n : ℕ} {it : CborValue}
    (h : Upcoming buf p rest r (n + 1) (x ++ y) others it) (hx : Cbor.Items 1 x) (hy : Cbor.Items n y) :
    Upcoming buf p rest (r + n) 1 x (y ++ others) it where
  stands := by simpa only [List.append_assoc, Nat.add_assoc] using h.stands
  items := hx
  others := Nat.add_comm r n ▸ hy.append h.others

/-- The parser is at the item, with what follows it. -/
theorem Upcoming.at_ {buf rest others item : List UInt8} {p r : ℕ} {it : CborValue}
    (h : Upcoming buf p rest r 1 item others it) : At buf p (r + 1) (item ++ (others ++ rest)) it := by
  simpa only [List.append_assoc] using h.stands.at_

/-! ## Putting readers together -/

theorem Decides.congr {d : CborValue → Decode ω (α × CborValue)} {n : ℕ}
    {denotes denotes' : α → List UInt8 → Prop} {sticks sticks' : List UInt8 → Prop}
    (h : Decides d n denotes sticks) (hdenotes : ∀ a x, denotes a x ↔ denotes' a x)
    (hsticks : ∀ x, sticks x ↔ sticks' x) : Decides d n denotes' sticks' := by
  obtain rfl : denotes = denotes' := by
    ext a x
    exact hdenotes a x
  obtain rfl : sticks = sticks' := by
    ext x
    exact hsticks x
  exact h

theorem decides_pure (a : α) :
    Decides (fun it => (pure (a, it) : Decode ω (α × CborValue))) 0 (fun b x => b = a ∧ x = []) never where
  wellFormed h := h.2 ▸ .nil
  reads := by
    rintro buf p rest r x others it b h ⟨rfl, rfl⟩
    exact ⟨it, rfl, h.stands⟩
  aborts _ h := h.elim
  refuses h hnot := absurd ⟨rfl, h.items.eq_nil⟩ (hnot a)

/-- One item, and what a reader makes of the others with its value. -/
def Then (n : ℕ) (denotes : α → List UInt8 → Prop) (after : α → β → List UInt8 → Prop) (b : β)
    (z : List UInt8) : Prop :=
  ∃ a x y, denotes a x ∧ after a b y ∧ Cbor.Items n y ∧ z = x ++ y

/-- The first item, or one of the others, is what the reader cannot leave. -/
def SticksThen (n : ℕ) (denotes : α → List UInt8 → Prop) (sticks : List UInt8 → Prop)
    (after : α → List UInt8 → Prop) (z : List UInt8) : Prop :=
  ∃ x y, (sticks x ∨ ∃ a, denotes a x ∧ after a y) ∧ Cbor.Items 1 x ∧ Cbor.Items n y ∧ z = x ++ y

theorem Decides.bind {d : CborValue → Decode ω (α × CborValue)}
    {e : α → CborValue → Decode ω (β × CborValue)} {n : ℕ} {denotes : α → List UInt8 → Prop}
    {sticks : List UInt8 → Prop} {denotes' : α → β → List UInt8 → Prop}
    {sticks' : α → List UInt8 → Prop} (hd : Decides d 1 denotes sticks)
    (he : ∀ a, Decides (e a) n (denotes' a) (sticks' a)) :
    Decides (fun it => d it >>= fun y => e y.1 y.2) (n + 1) (Then n denotes denotes')
      (SticksThen n denotes sticks sticks') where
  wellFormed := by
    rintro b z ⟨a, x, y, hx, -, hy, rfl⟩
    exact Nat.add_comm n 1 ▸ (hd.wellFormed hx).append hy
  reads := by
    rintro buf p rest r z others it b h ⟨a, x, y, hx, hafter, hy, rfl⟩
    obtain ⟨mid, hmid, hstands⟩ := hd.reads (h.first (hd.wellFormed hx) hy) hx
    obtain ⟨next, hnext, hlast⟩ := (he a).reads ⟨hstands, hy, h.others⟩ hafter
    refine ⟨next, ?_, by rwa [List.length_append, ← Nat.add_assoc]⟩
    rw [bind_of_done hmid]
    exact hnext
  aborts := by
    rintro buf p rest r z others it h ⟨x, y, hsticks, hx, hy, rfl⟩
    rcases hsticks with hsticks | ⟨a, hden, hsticks⟩
    · exact bind_of_stop (hd.aborts (h.first hx hy) hsticks)
    · obtain ⟨mid, hmid, hstands⟩ := hd.reads (h.first hx hy) hden
      rw [bind_of_done hmid]
      exact (he a).aborts ⟨hstands, hy, h.others⟩ hsticks
  refuses := by
    intro buf p rest r z others it h hnot hsticks
    obtain ⟨x, y, rfl, hx, hy⟩ := h.items.cons_inv
    by_cases hden : ∃ a, denotes a x
    · obtain ⟨a, hden⟩ := hden
      obtain ⟨mid, hmid, hstands⟩ := hd.reads (h.first hx hy) hden
      rw [bind_of_done hmid]
      exact (he a).refuses ⟨hstands, hy, h.others⟩
        (fun b hb => hnot b ⟨a, x, y, hden, hb, hy, rfl⟩)
        (fun hs => hsticks ⟨x, y, .inr ⟨a, hden, hs⟩, hx, hy, rfl⟩)
    · exact bind_of_stop (hd.refuses (h.first hx hy) (fun a ha => hden ⟨a, ha⟩)
        (fun hs => hsticks ⟨x, y, .inl hs, hx, hy, rfl⟩))

/-- An array whose length is in bounds, and whose items the grammar for that length has. -/
def ArrayOf (lo hi : ℕ) (denotes : ℕ → α → List UInt8 → Prop) (a : α) (item : List UInt8) : Prop :=
  ∃ v h body, lo ≤ v ∧ v ≤ hi ∧ Cbor.IsHead 4 v h ∧ denotes v a body ∧ item = h ++ body

def SticksIn (lo hi : ℕ) (sticks : ℕ → List UInt8 → Prop) (item : List UInt8) : Prop :=
  ∃ v h body, lo ≤ v ∧ v ≤ hi ∧ Cbor.IsHead 4 v h ∧ (sticks v body ∧ Cbor.Items v body) ∧ item = h ++ body

/-- An array is entered, its items are read, and it is left. -/
def readArray (lo hi : ℕ) (items : ℕ → CborValue → Decode ω (α × CborValue)) (it : CborValue) :
    Decode ω (α × CborValue) := do
  let n ← validateCborFixedArrayLength it lo hi
  let elements ← enterContainer it
  let (a, elements) ← items n elements
  let next ← leaveContainer it elements
  pure (a, next)

section
variable {buf rest others body h item : List UInt8} {p r v lo hi : ℕ} {it : CborValue}

/-- At an array of this length, the reader comes to its items. -/
theorem Upcoming.enter (hat : Upcoming buf p rest r 1 (h ++ body) others it) (hh : Cbor.IsHead 4 v h)
    (hbody : Cbor.Items v body) (hlo : lo ≤ v) (hhi : v ≤ hi) (hv : v < uint32Max) :
    validateCborFixedArrayLength (ω := ω) it lo hi buf = ([], .done v) ∧
      (∃ inner, enterContainer (ω := ω) it buf = ([], .done inner) ∧
        Upcoming buf (p + h.length) (others ++ rest) 0 v body [] inner) ∧
      ∃ next, leaveContainer (ω := ω) it (.atEnd (p + (h ++ body).length)) buf = ([], .done next) ∧
        Stands buf (p + (h ++ body).length) rest r others next := by
  have hstands := hat.stands
  rw [List.append_assoc] at hstands
  obtain ⟨hvalid, ⟨inner, henter, hinner⟩, hleave⟩ :=
    hstands.array (ω := ω) hh hbody hat.others hv hlo hhi
  exact ⟨hvalid, ⟨inner, henter, by simpa using hinner, hbody, .nil⟩, hleave⟩

/-- What is no array of a length in bounds is refused. -/
theorem Upcoming.validate_fails (hat : Upcoming buf p rest r 1 item others it)
    (hnot : ∀ v h body, lo ≤ v → v ≤ hi → Cbor.IsHead 4 v h → Cbor.Items v body → item ≠ h ++ body) :
    validateCborFixedArrayLength (ω := ω) it lo hi buf = ([], .stop .fail) := by
  have hbuf : buf.drop it.ptr = item ++ (others ++ rest) := by rw [hat.at_.ptr_eq, hat.at_.drop_eq]
  cases itemAt_of_items hat.items hat.at_.parsed with
  | uint hh hcv =>
    exact validate_other hat.items hbuf (.inl (by rw [hcv]; simp [CborType.ofMajor]))
  | text hx htype => exact validate_other hat.items hbuf (.inl (by simp [htype]))
  | other _ _ harray _ => exact validate_other hat.items hbuf harray
  | @array v h body hh hbody hcv =>
    rw [List.append_assoc] at hbuf
    have hvalid := validateCborFixedArrayLength_array (ω := ω) it.remaining lo hi hh hbuf
    rw [← hcv] at hvalid
    rw [hvalid, if_pos]
    by_contra hin
    exact hnot v h body (by omega) (by omega) hh hbody rfl

end

theorem Decides.array {lo hi : ℕ} {items : ℕ → CborValue → Decode ω (α × CborValue)}
    {denotes : ℕ → α → List UInt8 → Prop} {sticks : ℕ → List UInt8 → Prop}
    (h : ∀ v, lo ≤ v → v ≤ hi → Decides (items v) v (denotes v) (sticks v)) (hhi : hi < uint32Max) :
    Decides (readArray lo hi items) 1 (ArrayOf lo hi denotes) (SticksIn lo hi sticks) where
  wellFormed := by
    rintro a item ⟨v, hd, body, hlo, hv, hh, hden, rfl⟩
    simpa using Cbor.Items.array hh ((h v hlo hv).wellFormed hden) .nil
  reads := by
    rintro buf p rest r item others it a hat ⟨v, hd, body, hlo, hv, hh, hden, rfl⟩
    obtain ⟨hvalid, ⟨inner, henter, hinner⟩, next, hleave, hnext⟩ :=
      hat.enter (ω := ω) hh ((h v hlo hv).wellFormed hden) hlo hv (by omega)
    obtain ⟨final, hfinal, hend⟩ := (h v hlo hv).reads hinner hden
    obtain rfl := hend.atEnd rfl
    refine ⟨next, ?_, hnext⟩
    rw [readArray, bind_of_done hvalid, bind_of_done henter, bind_of_done hfinal]
    simp only
    rw [Nat.add_assoc, ← List.length_append, bind_of_done hleave]
    rfl
  aborts := by
    rintro buf p rest r item others it hat ⟨v, hd, body, hlo, hv, hh, ⟨hsticks, hbody⟩, rfl⟩
    obtain ⟨hvalid, ⟨inner, henter, hinner⟩, -⟩ := hat.enter (ω := ω) hh hbody hlo hv (by omega)
    rw [readArray, bind_of_done hvalid, bind_of_done henter]
    exact bind_of_stop ((h v hlo hv).aborts hinner hsticks)
  refuses := by
    intro buf p rest r item others it hat hnot hsticks
    by_cases harray : ∃ v h body, lo ≤ v ∧ v ≤ hi ∧ Cbor.IsHead 4 v h ∧ Cbor.Items v body ∧ item = h ++ body
    · obtain ⟨v, hd, body, hlo, hv, hh, hbody, rfl⟩ := harray
      obtain ⟨hvalid, ⟨inner, henter, hinner⟩, -⟩ := hat.enter (ω := ω) hh hbody hlo hv (by omega)
      rw [readArray, bind_of_done hvalid, bind_of_done henter]
      refine bind_of_stop ((h v hlo hv).refuses hinner (fun a ha => ?_) fun hs => ?_)
      · exact hnot a ⟨v, hd, body, hlo, hv, hh, ha, rfl⟩
      · exact hsticks ⟨v, hd, body, hlo, hv, hh, ⟨hs, hbody⟩, rfl⟩
    · refine bind_of_stop (hat.validate_fails fun v hd body hlo hv hh hbody heq => ?_)
      exact harray ⟨v, hd, body, hlo, hv, hh, hbody, heq⟩

/-! ## Numbers and endpoint ids -/

theorem items_pair {a x y : List UInt8} (ha : Cbor.IsHead 4 2 a) (hx : Cbor.Items 1 x)
    (hy : Cbor.Items 1 y) : Cbor.Items 1 (a ++ (x ++ y)) := by
  simpa using Cbor.Items.array ha (hx.append hy) .nil

theorem items_uint {v : ℕ} {h : List UInt8} (hh : Cbor.IsHead 0 v h) : Cbor.Items 1 h := by
  simpa using Cbor.Items.number hh (.inl rfl) .nil

theorem decides_uint : Decides (decodeUint (ω := ω)) 1 (Cbor.IsHead 0) never where
  wellFormed := items_uint
  reads h hh := h.stands.uint hh h.others
  aborts _ h := h.elim
  refuses := by
    intro buf p rest r x others it h hnot _
    have hat := h.at_
    apply decodeUint_item h.items (by rw [hat.ptr_eq, hat.drop_eq])
    intro htype
    cases itemAt_of_items h.items hat.parsed with
    | uint hh _ => exact hnot _ hh
    | text _ hother => simp [htype] at hother
    | array _ _ hcv =>
      rw [hcv] at htype
      cases htype
    | other hne _ _ _ => exact hne htype

theorem textItem_items {s x : List UInt8} (h : TextItem s x) : Cbor.Items 1 x := by
  cases h with
  | whole hh => simpa using Cbor.Items.string hh (.inr rfl) .nil
  | chunked hc => simpa using Cbor.Items.chunks hc (.inr rfl) .nil

theorem eidItem_items {eid : Eid} {item : List UInt8} (h : EidItem eid item) : Cbor.Items 1 item := by
  cases h with
  | null ha ht hx => exact items_pair ha (items_uint ht) (items_uint hx)
  | dtn ha ht hx => exact items_pair ha (items_uint ht) (textItem_items hx)
  | numbers _ ha ht hb hx hy =>
    exact items_pair ha (items_uint ht) (items_pair hb (items_uint hx) (items_uint hy))

theorem dtnOther_items {item : List UInt8} (h : DtnOther item) : Cbor.Items 1 item := by
  cases h with
  | mk ha ht hx _ _ => exact items_pair ha (items_uint ht) hx

theorem decides_eid : Decides (decodeEid (ω := ω)) 1 EidItem DtnOther where
  wellFormed := eidItem_items
  reads := by
    intro buf p rest r item others it eid h hitem
    have hat := h.at_
    have hdecode : decodeEid (ω := ω) it buf = _ := decodeEid_item hitem
      (by rw [hat.ptr_eq, hat.drop_eq]) (by rw [hat.ptr_eq, hat.remaining_eq, hat.parsed])
    rw [hdecode, hat.ptr_eq]
    exact h.stands.pairNext (by simp [eidItem_type hitem hat]) h.others eid
  aborts := by
    intro buf p rest r item others it h hitem
    have hat := h.at_
    exact decodeEid_dtnOther hitem (by rw [hat.ptr_eq, hat.drop_eq])
      (by rw [hat.ptr_eq, hat.remaining_eq, hat.parsed])
  refuses := by
    intro buf p rest r item others it h hnot hother
    have hat := h.at_
    exact decodeEid_fails h.items (by rw [hat.ptr_eq, hat.drop_eq])
      (by rw [hat.ptr_eq, hat.remaining_eq, hat.parsed]) hnot hother

end

end Dtnme.Bundling.TinyCbor
