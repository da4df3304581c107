import Dtnme.Bundling.Bp6Safety

/-! # Reception of a bundle of version 6 does not depend on chunks

What a block has kept is a function of the bytes that came for it, so that any cut of a bundle leads to
the same blocks. Exceptions are a previous hop whose text is read beyond the block, and blocks so long
that a chunk within them has a length of more than 31 bits.
-/

namespace Dtnme.Bundling
open Library Naming

/-! ## A preamble stays one when bytes follow -/

theorem readSdnv_drop_append {a : List UInt8} (b : List UInt8) {off : ℕ} {p : ℕ × ℕ}
    (h : readSdnv (a.drop off) = some p) : readSdnv ((a ++ b).drop off) = some p := by
  by_cases hoff : off ≤ a.length
  · rw [drop_append_of_le hoff]
    exact readSdnv_append b h
  · rw [List.drop_of_length_le (by omega)] at h
    have hbound := readSdnv_bound (v := p.1) (n := p.2) h
    rw [List.length_nil] at hbound
    omega

theorem eidLoop_append {dict a : List UInt8} (b : List UInt8) {count : ℕ} {r : List Eid × ℕ}
    (fuel : ℕ) : ∀ {fuel' i off : ℕ} {eids : List Eid}, fuel ≤ fuel' →
      eidLoop dict a count fuel i off eids = some r →
        eidLoop dict (a ++ b) count fuel' i off eids = some r := by
  induction fuel with
  | zero => intro fuel' i off eids _ h; simp [eidLoop] at h
  | succ fuel ih =>
    intro fuel' i off eids hfuel h
    obtain ⟨fuel', rfl⟩ : ∃ f, fuel' = f + 1 := ⟨fuel' - 1, by omega⟩
    rw [eidLoop] at h ⊢
    split_ifs at h ⊢ with hi
    · obtain ⟨⟨so, n⟩, hso, h⟩ := Option.bind_eq_some_iff.mp h
      obtain ⟨⟨ss, k⟩, hss, h⟩ := Option.bind_eq_some_iff.mp h
      rw [readSdnv_drop_append b hso, Option.bind_some]
      dsimp only
      rw [readSdnv_drop_append b hss, Option.bind_some]
      exact ih (by omega) h
    · exact h

theorem eidRefs_append {dict a : List UInt8} (b : List UInt8) {flags off : ℕ} {r : List Eid × ℕ}
    (h : eidRefs dict a flags off = some r) : eidRefs dict (a ++ b) flags off = some r := by
  unfold eidRefs at h ⊢
  split_ifs at h ⊢ with hf
  · obtain ⟨⟨count, n⟩, hcount, h⟩ := Option.bind_eq_some_iff.mp h
    rw [readSdnv_drop_append b hcount, Option.bind_some]
    apply eidLoop_append b _ _ h
    rw [List.length_append]
    omega
  · exact h

theorem preamble_append {dict a : List UInt8} (b : List UInt8) {p : Preamble}
    (h : preamble dict a = some p) : preamble dict (a ++ b) = some p := by
  obtain ⟨n, o, k, hflags, hrefs, hlen, hoff⟩ := preamble_eq_some h
  rw [preamble, readSdnv_drop_append b hflags, Option.bind_some]
  dsimp only
  rw [eidRefs_append b hrefs, Option.bind_some]
  dsimp only
  rw [readSdnv_drop_append b hlen, Option.bind_some, ← hoff]

/-- Before its last byte a preamble is not found. -/
theorem preamble_of_short {dict a b : List UInt8} {p : Preamble} (h : preamble dict (a ++ b) = some p)
    (ha : a.length < p.offset) : preamble dict a = none := by
  cases hpre : preamble dict a with
  | none => rfl
  | some q =>
    have hq := (preamble_bound hpre).2.1
    rw [preamble_append b hpre] at h
    cases h
    omega

/-! ## A block and the bytes that came for it -/

/-- What is kept of a block when the bytes `x` of it have come. -/
def RecvBlock.upTo (owner : Processor) (p : Preamble) (x : List UInt8) : RecvBlock :=
  if x.length < p.offset then { owner := owner, contents := x }
  else
    { owner := owner
      contents := x
      bufLen := if p.offset < x.length then max 64 (p.offset + p.blockLen) else 64
      dataLength := p.blockLen
      dataOffset := p.offset
      complete := p.offset + p.blockLen ≤ x.length
      eidList := p.eidList }

/-- Bytes that start with a preamble that fits into the buffer. -/
structure Head (dict : List UInt8) (p : Preamble) (z : List UInt8) : Prop where
  parsed : preamble dict z = some p
  near : p.offset ≤ 64

/-- The bytes of a block that keeps its data. -/
structure Image (memory : ℕ) (dict : List UInt8) (p : Preamble) (z : List UInt8) : Prop
    extends Head dict p z where
  length_eq : z.length = p.offset + p.blockLen
  fits : p.blockLen ≠ 0 → z.length ≤ memory
  memory_lt : memory < 2 ^ 64

/-- The bytes `y` come next for a block with the bytes `z`, and `r` behind the block. -/
structure Next (p : Preamble) (z x y r : List UInt8) : Prop where
  isPrefix : x ++ y <+: z
  short : x.length < z.length
  behind : r ≠ [] → x ++ y = z
  room : r ≠ [] → p.blockLen = 0 → p.offset < 64

section
variable {memory : ℕ} {dict : List UInt8} {p : Preamble} {z x y r : List UInt8}

theorem Image.length_lt (h : Image memory dict p z) : z.length < 2 ^ 64 := by
  by_cases h0 : p.blockLen = 0
  · have := h.length_eq
    have := h.near
    omega
  · exact lt_of_le_of_lt (h.fits h0) h.memory_lt

theorem RecvBlock.upTo_of_lt (owner : Processor) (hx : x.length < p.offset) :
    RecvBlock.upTo owner p x = { owner := owner, contents := x } := if_pos hx

theorem RecvBlock.upTo_of_le (owner : Processor) (hx : p.offset ≤ x.length) :
    RecvBlock.upTo owner p x =
      { owner := owner
        contents := x
        bufLen := if p.offset < x.length then max 64 (p.offset + p.blockLen) else 64
        dataLength := p.blockLen
        dataOffset := p.offset
        complete := p.offset + p.blockLen ≤ x.length
        eidList := p.eidList } := if_neg (Nat.not_lt.mpr hx)

/-- A block that is not marked complete yet. -/
def RecvBlock.unmarked (block : RecvBlock) : RecvBlock := { block with complete := false }

/-- A block with the preamble and the bytes `x`, which is not marked complete yet. -/
def RecvBlock.begun (owner : Processor) (p : Preamble) (x : List UInt8) : RecvBlock :=
  (RecvBlock.upTo owner p x).unmarked

theorem RecvBlock.begun_eq (owner : Processor) (hx : p.offset ≤ x.length) :
    RecvBlock.begun owner p x =
      { owner := owner
        contents := x
        bufLen := if p.offset < x.length then max 64 (p.offset + p.blockLen) else 64
        dataLength := p.blockLen
        dataOffset := p.offset
        eidList := p.eidList } := by
  rw [RecvBlock.begun, RecvBlock.upTo_of_le owner hx, RecvBlock.unmarked]

/-- A block without data is complete behind its preamble. -/
theorem consumeData_empty (owner : Processor) (h : Image memory dict p z) (h0 : p.blockLen = 0)
    (hx : x = z) (hroom : r ≠ [] → p.offset < 64) (hmemory : 64 ≤ memory) :
    consumeData memory (RecvBlock.begun owner p x) r = .ok (0, RecvBlock.upTo owner p x) := by
  have hlen := h.length_eq
  have hpos := (preamble_bound h.parsed).1
  rw [h0, ← hx, Nat.add_zero] at hlen
  have hdone : decide (p.offset + p.blockLen ≤ x.length) = true := decide_eq_true (by omega)
  have hfinish : (RecvBlock.begun owner p x).finishEmpty = RecvBlock.upTo owner p x := by
    rw [RecvBlock.begun_eq owner hlen.ge, RecvBlock.upTo_of_le owner hlen.ge, hdone,
      RecvBlock.finishEmpty, if_pos ⟨by dsimp only; omega, h0⟩]
  have hoff : (RecvBlock.begun owner p x).dataOffset = p.offset := by
    rw [RecvBlock.begun_eq owner hlen.ge]
  rw [consumeData, hfinish, require_of fun hz => absurd hz (by omega)]
  simp only [bind, Except.bind]
  by_cases hr : r = []
  · rw [if_pos hr]
    rfl
  · have hfull : u64 (p.offset + p.blockLen) = p.offset := by
      rw [h0, Nat.add_zero, u64_of_lt]
      have := h.near
      omega
    have hlt := hroom hr
    rw [if_neg hr, RecvBlock.upTo_of_le owner hlen.ge, hdone, copyData_eq (.inl h0)]
    · simp only [RecvBlock.fullLength, hfull, hlen, Nat.sub_self, Nat.zero_min, List.take_zero,
        List.append_nil, Bool.true_or]
      rw [if_neg (by omega : ¬ p.offset < p.offset), max_eq_left (by omega)]
    all_goals
      simp only [RecvBlock.fullLength, hfull, hlen, lt_self_iff_false, if_false]
      omega

/-- Data behind the preamble is kept. -/
theorem consumeData_begun (owner : Processor) (h : Image memory dict p z) (h0 : p.blockLen ≠ 0)
    (hx : p.offset ≤ x.length) (hlt : x.length < z.length) (hz : x ++ y <+: z)
    (hbehind : r ≠ [] → x ++ y = z) :
    consumeData memory (RecvBlock.begun owner p x) (y ++ r) =
      .ok (y.length, RecvBlock.upTo owner p (x ++ y)) := by
  have hlen := h.length_eq
  have h64 := h.length_lt
  have hpos := (preamble_bound h.parsed).1
  have hfits := h.fits h0
  have hle := hz.length_le
  rw [List.length_append] at hle
  have hafter := RecvBlock.upTo_of_le (x := x ++ y) owner (p := p) (by rw [List.length_append]; omega)
  have hfinish : (RecvBlock.begun owner p x).finishEmpty = RecvBlock.begun owner p x := by
    rw [RecvBlock.begun_eq owner hx, RecvBlock.finishEmpty, if_neg fun hc => h0 hc.2]
  have hoff : (RecvBlock.begun owner p x).dataOffset = p.offset := by
    rw [RecvBlock.begun_eq owner hx]
  rw [consumeData, hfinish, hafter, require_of fun hz => absurd hz (by omega)]
  simp only [bind, Except.bind]
  by_cases hy : y ++ r = []
  · obtain ⟨rfl, rfl⟩ := List.append_eq_nil_iff.mp hy
    rw [if_pos hy, List.append_nil, decide_eq_false (by omega), RecvBlock.begun_eq owner hx]
    rfl
  · have hfull : u64 (p.offset + p.blockLen) = z.length := by rw [← hlen, u64_of_lt h64]
    have htotal : r ≠ [] → x.length + y.length = z.length := fun hr => by
      rw [← List.length_append, hbehind hr]
    have hypos : 0 < y.length := by
      by_contra hno
      have hynil : y = [] := List.eq_nil_of_length_eq_zero (by omega)
      have hr : r ≠ [] := fun hr => hy (by rw [hynil, hr]; rfl)
      have := htotal hr
      omega
    have htake : (y ++ r).take (z.length - x.length) = y := by
      by_cases hr : r = []
      · rw [hr, List.append_nil, List.take_of_length_le (by omega)]
      · have := htotal hr
        rw [show z.length - x.length = y.length by omega, List.take_left]
    have hcount : min (z.length - x.length) (y ++ r).length = y.length := by
      rw [← List.length_take, htake]
    have hcomplete : decide (z.length - x.length ≤ (y ++ r).length) =
        decide (p.offset + p.blockLen ≤ (x ++ y).length) := by
      rw [decide_eq_decide, List.length_append, List.length_append]
      by_cases hr : r = []
      · rw [hr, List.length_nil]
        omega
      · have := htotal hr
        omega
    have hbuf : max (if p.offset < x.length then max 64 (p.offset + p.blockLen) else 64) z.length =
        if p.offset < (x ++ y).length then max 64 (p.offset + p.blockLen) else 64 := by
      have hafter : p.offset < (x ++ y).length := by
        rw [List.length_append]
        omega
      rw [if_pos hafter, hlen]
      split_ifs
      · rw [max_assoc, max_self]
      · rfl
    rw [if_neg hy, RecvBlock.begun_eq owner hx, copyData_eq]
    · simp only [RecvBlock.fullLength, hfull, htake, hcount, hcomplete, hbuf, Bool.false_or]
    all_goals
      simp only [RecvBlock.fullLength, hfull]
      omega

/-- What a preamble is looked for in: the buffer of 64 bytes does not grow. -/
theorem consumePreamble_window (owner : Processor) (h : Head dict p z)
    (hx : x.length < p.offset) (data : List UInt8) :
    consumePreamble memory dict (RecvBlock.upTo owner p x) data =
      .ok (match preamble dict (x ++ data.take (64 - x.length)) with
        | none => (if data.length ≤ 64 - x.length then some data.length else none,
          { owner := owner, contents := x ++ data.take (64 - x.length) })
        | some q => (some (q.offset - x.length),
          ({ owner := owner, contents := x ++ data.take (64 - x.length) } : RecvBlock).start q)) := by
  have hnear := h.near
  have hexpand : ({ owner := owner, contents := x } : RecvBlock).expand memory =
      .ok { owner := owner, contents := x } := if_neg (by dsimp only; omega)
  have htake : data.take (min data.length (64 - x.length)) = data.take (64 - x.length) := by
    rw [min_comm, ← List.take_take, List.take_length]
  have hfill : ({ owner := owner, contents := x } : RecvBlock).fill (data.take (64 - x.length)) =
      .ok { owner := owner, contents := x ++ data.take (64 - x.length) } :=
    RecvBlock.fill_of_le _ (by dsimp only; omega) (by rw [List.length_take]; dsimp only; omega)
  have hmin : (min data.length (64 - x.length) = data.length) = (data.length ≤ 64 - x.length) :=
    propext min_eq_left_iff
  have hlt : x.length < 64 := by omega
  rw [RecvBlock.upTo_of_lt owner hx, consumePreamble, require_of rfl, require_of rfl,
    require_of (by dsimp only; omega)]
  simp only [bind, Except.bind, hexpand, require_of hlt, htake, hfill, hmin]
  cases preamble dict (x ++ data.take (64 - x.length)) <;> rfl

/-- More bytes of a preamble are kept. -/
theorem consumePreamble_short (owner : Processor) (h : Head dict p z) (hz : x ++ y <+: z)
    (hxy : (x ++ y).length < p.offset) :
    consumePreamble memory dict (RecvBlock.upTo owner p x) y =
      .ok (some y.length, RecvBlock.upTo owner p (x ++ y)) := by
  have hnear := h.near
  have hlen := hxy
  rw [List.length_append] at hlen
  obtain ⟨rest, hrest⟩ := hz
  have hnone : preamble dict (x ++ y) = none := preamble_of_short (hrest ▸ h.parsed) hxy
  rw [consumePreamble_window owner h (by omega), List.take_of_length_le (by omega), hnone,
    if_pos (by omega), RecvBlock.upTo_of_lt owner hxy]

/-- The preamble is found with its last byte. -/
theorem consumePreamble_found (owner : Processor) (h : Head dict p z)
    (hx : x.length < p.offset) (hz : x ++ y <+: z)
    (hxy : p.offset ≤ (x ++ y).length) :
    consumePreamble memory dict (RecvBlock.upTo owner p x) (y ++ r) =
      .ok (some (p.offset - x.length), RecvBlock.begun owner p (z.take p.offset)) := by
  have hnear := h.near
  have hbound := (preamble_bound h.parsed).2.1
  have htake : (z.take p.offset).length = p.offset := by
    rw [List.length_take]
    omega
  rw [List.length_append] at hxy
  -- the bytes looked at start with the preamble
  obtain ⟨more, hmore⟩ : ∃ more, x ++ (y ++ r).take (64 - x.length) = z.take p.offset ++ more := by
    have hfirst : (x ++ (y ++ r)).take p.offset = z.take p.offset := by
      have hle : p.offset ≤ (x ++ y).length := by
        rw [List.length_append]
        exact hxy
      obtain ⟨rest, hrest⟩ := hz
      rw [← List.append_assoc, List.take_append_of_le_length hle, ← hrest,
        List.take_append_of_le_length hle]
    have hwindow : x ++ (y ++ r).take (64 - x.length) = (x ++ (y ++ r)).take 64 := by
      have hsplit : (x ++ (y ++ r)).take 64 = x.take 64 ++ (y ++ r).take (64 - x.length) :=
        List.take_append
      rw [hsplit, List.take_of_length_le (by omega : x.length ≤ 64)]
    refine ⟨((x ++ (y ++ r)).take 64).drop p.offset, ?_⟩
    rw [← hfirst, hwindow, ← min_eq_left hnear, ← List.take_take, min_eq_left hnear,
      List.take_append_drop]
  have hfound : preamble dict (z.take p.offset ++ more) = some p :=
    preamble_append more (preamble_take h.parsed le_rfl)
  rw [consumePreamble_window owner h hx, hmore, hfound, RecvBlock.begun_eq owner htake.ge, htake]
  simp only [RecvBlock.start, List.take_left' htake, lt_self_iff_false, if_false]

/-- The bytes of a block may come in pieces, with others behind the last one. -/
theorem consumeBlock_upTo (owner : Processor) (h : Image memory dict p z) (hn : Next p z x y r)
    (hmemory : 64 ≤ memory) :
    consumeBlock memory dict (RecvBlock.upTo owner p x) (y ++ r) =
      .ok (some y.length, RecvBlock.upTo owner p (x ++ y)) := by
  have hlen := h.length_eq
  have hle := hn.isPrefix.length_le
  rw [List.length_append] at hle
  have hshort := hn.short
  have hthree := (preamble_bound h.parsed).1
  rw [consumeBlock, require_of ?incomplete, consumeStart]
  case incomplete =>
    by_cases hx : x.length < p.offset
    · rw [RecvBlock.upTo_of_lt owner hx]
    · rw [RecvBlock.upTo_of_le owner (by omega)]
      exact decide_eq_false (by omega)
  simp only [bind, Except.bind]
  by_cases hx : x.length < p.offset
  · have hoff : (RecvBlock.upTo owner p x).dataOffset = 0 := by rw [RecvBlock.upTo_of_lt owner hx]
    rw [if_pos hoff]
    by_cases hxy : (x ++ y).length < p.offset
    · have hr : r = [] := by
        by_contra hr
        have := congrArg List.length (hn.behind hr)
        omega
      have hfinish : (RecvBlock.upTo owner p (x ++ y)).finishEmpty = RecvBlock.upTo owner p (x ++ y) := by
        rw [RecvBlock.upTo_of_lt owner hxy, RecvBlock.finishEmpty, if_neg fun hc => hc.1 rfl]
      rw [hr, List.append_nil, consumePreamble_short owner h.toHead hn.isPrefix hxy]
      dsimp only
      rw [List.drop_length, consumeData, require_of fun _ => rfl, hfinish]
      rfl
    · have hxy' : x.length + y.length = (x ++ y).length := (List.length_append).symm
      rw [consumePreamble_found owner h.toHead hx hn.isPrefix (by omega)]
      dsimp only
      -- the rest of the data behind the preamble
      have hpart : z.take p.offset ++ y.drop (p.offset - x.length) = x ++ y := by
        obtain ⟨rest, hrest⟩ := hn.isPrefix
        rw [← hrest, List.take_append_of_le_length (by omega), List.take_append,
          List.take_of_length_le hx.le, List.append_assoc, List.take_append_drop]
      have htake : (z.take p.offset).length = p.offset := by
        rw [List.length_take]
        omega
      rw [List.drop_append_of_le_length (by omega)]
      by_cases h0 : p.blockLen = 0
      · have hnil : y.drop (p.offset - x.length) = [] :=
          List.drop_of_length_le (by omega)
        have hall : z.take p.offset = z := List.take_of_length_le (by omega)
        rw [hnil, List.append_nil] at hpart
        rw [hnil, List.nil_append, consumeData_empty owner h h0 hall (fun hr => hn.room hr h0) hmemory,
          hpart]
        dsimp only
        rw [Nat.add_zero, show p.offset - x.length = y.length by omega]
        rfl
      · rw [consumeData_begun owner h h0 htake.ge (by omega) (hpart ▸ hn.isPrefix)
          (fun hr => hpart.trans (hn.behind hr)), hpart]
        dsimp only
        rw [List.length_drop, show p.offset - x.length + (y.length - (p.offset - x.length)) = y.length by
          omega]
        rfl
  · have hoff : (RecvBlock.upTo owner p x).dataOffset ≠ 0 := by
      rw [RecvBlock.upTo_of_le owner (by omega)]
      dsimp only
      omega
    have hbegun : RecvBlock.upTo owner p x = RecvBlock.begun owner p x := by
      rw [RecvBlock.begun_eq owner (by omega), RecvBlock.upTo_of_le owner (by omega),
        decide_eq_false (by omega)]
    rw [if_neg hoff, hbegun]
    dsimp only
    rw [List.drop_zero, consumeData_begun owner h (by omega) (by omega) hshort hn.isPrefix hn.behind]
    dsimp only
    rw [Nat.zero_add]
    rfl

end

/-! ## A payload and the bytes that came for it -/

/-- How many bytes are taken for a payload. -/
def payloadLen (nodata : Bool) (p : Preamble) : ℕ := if nodata then 0 else p.blockLen

/-- The block of a payload when the bytes `x` of it have come. -/
def RecvBlock.payloadUpTo (nodata : Bool) (p : Preamble) (x : List UInt8) : RecvBlock :=
  if x.length < p.offset then { owner := .payload, contents := x }
  else
    { owner := .payload
      contents := x.take p.offset
      dataLength := p.blockLen
      dataOffset := p.offset
      complete := p.offset + payloadLen nodata p ≤ x.length
      eidList := p.eidList }

/-- The bundle, of which the payload was empty before. -/
def RecvBundle.payloadUpTo (b : RecvBundle) (p : Preamble) (x : List UInt8) : RecvBundle :=
  if x.length ≤ p.offset then b else writePayload b (x.drop p.offset)

theorem writePayload_writePayload (b : RecvBundle) (u v : List UInt8) :
    writePayload (writePayload b u) v = writePayload b (u ++ v) := by
  unfold writePayload
  simp only [List.append_assoc, List.length_append]
  split_ifs with hf
  · simp only [Nat.add_assoc]
  · rfl

section
variable {b : RecvBundle} {dict : List UInt8} {p : Preamble} {z x y r : List UInt8}

theorem RecvBundle.payloadUpTo_of_le (b : RecvBundle) (hx : x.length ≤ p.offset) :
    b.payloadUpTo p x = b := if_pos hx

/-- Bytes behind the preamble are added. -/
theorem RecvBundle.payloadUpTo_append (hx : p.offset ≤ x.length) (hy : y ≠ []) :
    writePayload (b.payloadUpTo p x) y = b.payloadUpTo p (x ++ y) := by
  have hypos := List.length_pos_iff.mpr hy
  have hlen : ¬ (x ++ y).length ≤ p.offset := by
    rw [List.length_append]
    omega
  unfold RecvBundle.payloadUpTo
  rw [if_neg hlen, drop_append_of_le hx]
  split_ifs with hle
  · rw [List.drop_of_length_le hle, List.nil_append]
  · rw [writePayload_writePayload]

theorem RecvBundle.payload_payloadUpTo (hb : b.payload = []) :
    (b.payloadUpTo p x).payload = x.drop p.offset := by
  unfold RecvBundle.payloadUpTo
  split_ifs with hle
  · rw [List.drop_of_length_le hle, hb]
  · simp only [writePayload, hb, List.nil_append]

theorem RecvBundle.nodata_payloadUpTo : (b.payloadUpTo p x).nodata = b.nodata := by
  unfold RecvBundle.payloadUpTo
  split_ifs <;> rfl

theorem RecvBlock.payloadUpTo_of_lt (nodata : Bool) (hx : x.length < p.offset) :
    RecvBlock.payloadUpTo nodata p x = RecvBlock.upTo .payload p x := by
  rw [RecvBlock.payloadUpTo, if_pos hx, RecvBlock.upTo_of_lt .payload hx]

theorem RecvBlock.payloadUpTo_of_le (nodata : Bool) (hx : p.offset ≤ x.length) :
    RecvBlock.payloadUpTo nodata p x =
      { owner := .payload
        contents := x.take p.offset
        dataLength := p.blockLen
        dataOffset := p.offset
        complete := p.offset + payloadLen nodata p ≤ x.length
        eidList := p.eidList } := if_neg (Nat.not_lt.mpr hx)

/-- Bytes behind the preamble of a payload. -/
theorem payloadData_upTo (h : Head dict p z) (hlen : z.length = p.offset + payloadLen b.nodata p)
    (hb : b.payload = []) (hx : p.offset ≤ x.length) (hz : x ++ y <+: z)
    (hlt : payloadLen b.nodata p ≠ 0 → x.length < z.length) (hbehind : r ≠ [] → x ++ y = z) :
    payloadData (b.payloadUpTo p x) (RecvBlock.payloadUpTo b.nodata p x).unmarked (y ++ r) =
      .ok (y.length, RecvBlock.payloadUpTo b.nodata p (x ++ y), b.payloadUpTo p (x ++ y)) := by
  have hthree := (preamble_bound h.parsed).1
  have hle := hz.length_le
  rw [List.length_append] at hle
  have hxy : p.offset ≤ (x ++ y).length := by
    rw [List.length_append]
    omega
  have htake : (x ++ y).take p.offset = x.take p.offset := List.take_append_of_le_length hx
  have htakeLen : (x.take p.offset).length = p.offset := by
    rw [List.length_take]
    omega
  rw [RecvBlock.payloadUpTo_of_le b.nodata hx, RecvBlock.payloadUpTo_of_le b.nodata hxy, htake,
    RecvBlock.unmarked, payloadData, if_neg (by dsimp only; omega), RecvBundle.nodata_payloadUpTo]
  by_cases hdone : payloadLen b.nodata p = 0
  · have hynil : y = [] := List.eq_nil_of_length_eq_zero (by omega)
    have hcond : (b.nodata || decide (p.blockLen = 0)) = true := by
      unfold payloadLen at hdone
      cases hno : b.nodata with
      | true => rfl
      | false =>
        rw [hno, if_neg Bool.false_ne_true] at hdone
        simpa using hdone
    rw [if_pos hcond, hynil, List.append_nil, decide_eq_true (by omega)]
    rfl
  · have hno : b.nodata = false := by
      unfold payloadLen at hdone
      cases hno : b.nodata with
      | true => simp [hno] at hdone
      | false => rfl
    have hpl : payloadLen b.nodata p = p.blockLen := by simp [payloadLen, hno]
    have hcond : ¬ (b.nodata || decide (p.blockLen = 0)) = true := by
      rw [hpl] at hdone
      simp [hno, hdone]
    have hshort := hlt hdone
    have hpayload : (b.payloadUpTo p x).payload.length = x.length - p.offset := by
      rw [RecvBundle.payload_payloadUpTo hb, List.length_drop]
    rw [if_neg hcond]
    by_cases hy : y ++ r = []
    · obtain ⟨rfl, rfl⟩ := List.append_eq_nil_iff.mp hy
      rw [if_pos hy, List.append_nil, decide_eq_false (by omega)]
      rfl
    · have htotal : r ≠ [] → x.length + y.length = z.length := fun hr => by
        rw [← List.length_append, hbehind hr]
      have hyne : y ≠ [] := by
        rintro rfl
        have hr : r ≠ [] := fun hr => hy (by rw [hr]; rfl)
        have := htotal hr
        rw [List.length_nil] at this
        omega
      have hfirst : (y ++ r).take (p.blockLen - (x.length - p.offset)) = y := by
        by_cases hr : r = []
        · rw [hr, List.append_nil, List.take_of_length_le (by omega)]
        · have := htotal hr
          rw [show p.blockLen - (x.length - p.offset) = y.length by omega, List.take_left]
      have hcount : min (p.blockLen - (x.length - p.offset)) (y ++ r).length = y.length := by
        rw [← List.length_take, hfirst]
      have hcomplete : decide (p.blockLen - (x.length - p.offset) ≤ (y ++ r).length) =
          decide (p.offset + payloadLen b.nodata p ≤ (x ++ y).length) := by
        rw [decide_eq_decide, List.length_append, List.length_append]
        by_cases hr : r = []
        · rw [hr, List.length_nil]
          omega
        · have := htotal hr
          omega
      rw [if_neg hy, require_of htakeLen]
      simp only [bind, Except.bind, hpayload, require_of (by omega : x.length - p.offset < p.blockLen),
        hfirst, hcount, hcomplete, RecvBundle.payloadUpTo_append hx hyne]
      rfl

end

/-! ## One processor -/

/-- What a processor does behind the last byte of a block. -/
def finishOwner (host : Host) (index : ℕ) (b : RecvBundle) (block : RecvBlock) :
    Except Fault (Option RecvBundle) :=
  match block.owner with
  | .primary => do
    require (block.fullLength = block.contents.length)
    let r ← parsePrimary b.dict b.fields block
    pure (r.map fun (fields, dict) => { b with fields := fields, dict := dict })
  | .previousHop => finishPreviousHop host index b block
  | .metadata => finishMetadata b block
  | .custodyTransferEnhancement => finishCteb b block
  | .extendedClassOfService => finishEcos b block
  | .imcState => finishImcState b block
  | .payload | .unknown => .ok (some b)

/-- Block and bundle when the bytes `x` of the block have come. -/
def partOf (b : RecvBundle) (owner : Processor) (p : Preamble) (x : List UInt8) :
    RecvBlock × RecvBundle :=
  if owner = .payload then (RecvBlock.payloadUpTo b.nodata p x, b.payloadUpTo p x)
  else (RecvBlock.upTo owner p x, b)

/-- The bytes of a block for its processor. -/
structure BlockImage (host : Host) (b : RecvBundle) (owner : Processor) (p : Preamble)
    (z : List UInt8) : Prop extends Head b.dict p z where
  length_eq : z.length = p.offset + if owner = .payload then payloadLen b.nodata p else p.blockLen
  fits : owner ≠ .payload → p.blockLen ≠ 0 → z.length ≤ host.memory
  payload : owner = .payload → b.payload = []

/-- A length that is compared as a number of 32 bits. -/
def Processor.narrow (owner : Processor) : Prop :=
  owner = .primary ∨ owner = .custodyTransferEnhancement

instance (owner : Processor) : Decidable owner.narrow := inferInstanceAs (Decidable (_ ∨ _))

section
variable {host : Host} {b : RecvBundle} {owner : Processor} {p : Preamble} {z x y r : List UInt8}

theorem partOf_payload (b : RecvBundle) (p : Preamble) (x : List UInt8) :
    partOf b .payload p x = (RecvBlock.payloadUpTo b.nodata p x, b.payloadUpTo p x) := if_pos rfl

theorem partOf_other (b : RecvBundle) (p : Preamble) (x : List UInt8) (ho : owner ≠ .payload) :
    partOf b owner p x = (RecvBlock.upTo owner p x, b) := if_neg ho

theorem BlockImage.image (h : BlockImage host b owner p z) (ho : owner ≠ .payload) :
    Image host.memory b.dict p z :=
  ⟨h.toHead, by rw [h.length_eq, if_neg ho], h.fits ho, host.memory_lt⟩

theorem RecvBlock.owner_upTo : (RecvBlock.upTo owner p x).owner = owner := by
  unfold RecvBlock.upTo
  split_ifs <;> rfl

/-- Before its last byte a block is not complete. -/
theorem BlockImage.incomplete (h : BlockImage host b owner p z) (hx : x.length < z.length) :
    (partOf b owner p x).1.complete = false := by
  have hlen := h.length_eq
  unfold partOf
  split_ifs at hlen ⊢ with ho
  · by_cases hlt : x.length < p.offset
    · rw [RecvBlock.payloadUpTo_of_lt _ hlt, RecvBlock.upTo_of_lt _ hlt]
    · rw [RecvBlock.payloadUpTo_of_le _ (by omega)]
      exact decide_eq_false (by omega)
  · by_cases hlt : x.length < p.offset
    · rw [RecvBlock.upTo_of_lt _ hlt]
    · rw [RecvBlock.upTo_of_le _ (by omega)]
      exact decide_eq_false (by omega)

theorem BlockImage.complete (h : BlockImage host b owner p z) : (partOf b owner p z).1.complete = true := by
  have hlen := h.length_eq
  unfold partOf
  split_ifs at hlen ⊢ with ho
  · rw [RecvBlock.payloadUpTo_of_le _ (by omega)]
    exact decide_eq_true hlen.ge
  · rw [RecvBlock.upTo_of_le _ (by omega)]
    exact decide_eq_true hlen.ge

theorem BlockImage.incomplete_upTo (h : BlockImage host b owner p z) (ho : owner ≠ .payload)
    (hx : x.length < z.length) : (RecvBlock.upTo owner p x).complete = false := by
  have := h.incomplete hx
  rwa [partOf_other b p _ ho] at this

theorem BlockImage.complete_upTo (h : BlockImage host b owner p z) (ho : owner ≠ .payload) :
    (RecvBlock.upTo owner p z).complete = true := by
  have := h.complete
  rwa [partOf_other b p _ ho] at this

/-- A processor on the next bytes of a payload. -/
theorem consumePayload_partOf (h : BlockImage host b .payload p z) (hx : x.length < z.length)
    (hz : x ++ y <+: z) (hbehind : r ≠ [] → x ++ y = z) :
    consumePayload host (b.payloadUpTo p x) (RecvBlock.payloadUpTo b.nodata p x) (y ++ r) =
      .ok (some y.length, RecvBlock.payloadUpTo b.nodata p (x ++ y), b.payloadUpTo p (x ++ y)) := by
  have hlen := h.length_eq
  rw [if_pos rfl] at hlen
  have hb := h.payload rfl
  have hthree := (preamble_bound h.parsed).1
  have hle := hz.length_le
  have happ : x.length + y.length = (x ++ y).length := (List.length_append).symm
  have hempty : b.payload.length = 0 := by rw [hb]; rfl
  rw [consumePayload, payloadStart]
  simp only [bind, Except.bind]
  by_cases hlt : x.length < p.offset
  · have hoff : (RecvBlock.upTo .payload p x).dataOffset = 0 := by rw [RecvBlock.upTo_of_lt _ hlt]
    rw [RecvBlock.payloadUpTo_of_lt _ hlt, if_pos hoff, b.payloadUpTo_of_le hlt.le]
    by_cases hxy : (x ++ y).length < p.offset
    · have hr : r = [] := by
        by_contra hr
        have := congrArg List.length (hbehind hr)
        omega
      rw [hr, List.append_nil, consumePreamble_short .payload h.toHead hz hxy,
        RecvBlock.payloadUpTo_of_lt _ hxy, b.payloadUpTo_of_le hxy.le]
      dsimp only
      rw [require_of hempty]
      simp only [pure, Except.pure, List.drop_length, payloadData]
      rw [if_pos (by rw [RecvBlock.upTo_of_lt _ hxy])]
      rfl
    · have htake : (z.take p.offset).length = p.offset := by
        rw [List.length_take]
        omega
      have hpart : z.take p.offset ++ y.drop (p.offset - x.length) = x ++ y := by
        obtain ⟨rest, hrest⟩ := hz
        rw [← hrest, List.take_append_of_le_length (by omega), List.take_append,
          List.take_of_length_le hlt.le, List.append_assoc, List.take_append_drop]
      have hbegun : RecvBlock.begun .payload p (z.take p.offset) =
          (RecvBlock.payloadUpTo b.nodata p (z.take p.offset)).unmarked := by
        rw [RecvBlock.begun_eq _ htake.ge, RecvBlock.payloadUpTo_of_le _ htake.ge, htake,
          if_neg (lt_irrefl _), List.take_take, min_self, RecvBlock.unmarked]
      have hdata := payloadData_upTo (x := z.take p.offset) (y := y.drop (p.offset - x.length)) (r := r)
        h.toHead hlen hb htake.ge (hpart ▸ hz) (fun hne => by omega) fun hr => hpart.trans (hbehind hr)
      rw [consumePreamble_found .payload h.toHead hlt hz (by omega)]
      dsimp only
      rw [require_of hempty]
      simp only [pure, Except.pure]
      rw [b.payloadUpTo_of_le htake.le] at hdata
      rw [List.drop_append_of_le_length (by omega), hbegun, hdata, hpart]
      dsimp only
      rw [List.length_drop, show p.offset - x.length + (y.length - (p.offset - x.length)) = y.length by
        omega]
  · have hoff : (RecvBlock.payloadUpTo b.nodata p x).dataOffset ≠ 0 := by
      rw [RecvBlock.payloadUpTo_of_le _ (by omega)]
      dsimp only
      omega
    have hself : (RecvBlock.payloadUpTo b.nodata p x).unmarked = RecvBlock.payloadUpTo b.nodata p x := by
      rw [RecvBlock.payloadUpTo_of_le _ (by omega), decide_eq_false (by omega), RecvBlock.unmarked]
    have hdata := payloadData_upTo (y := y) (r := r) h.toHead hlen hb (by omega) hz (fun _ => hx) hbehind
    rw [hself] at hdata
    rw [if_neg hoff]
    dsimp only
    rw [List.drop_zero, hdata]
    dsimp only
    rw [Nat.zero_add]
    rfl

theorem owner_partOf : (partOf b owner p x).1.owner = owner := by
  unfold partOf
  split_ifs with ho
  · rw [ho]
    unfold RecvBlock.payloadUpTo
    split_ifs <;> rfl
  · exact RecvBlock.owner_upTo

/-- What a processor that keeps its data makes of more bytes within the block. -/
theorem consumeThen_waits {expected : ℕ → ℤ}
    {finish : RecvBundle → RecvBlock → Except Fault (Option RecvBundle)}
    (h : BlockImage host b owner p z) (ho : owner ≠ .payload) (hz : x ++ y <+: z)
    (hlt : (x ++ y).length < z.length) (hy : expected y.length = y.length) :
    consumeThen host expected finish b (RecvBlock.upTo owner p x) y =
      .ok (some y.length, RecvBlock.upTo owner p (x ++ y), b) := by
  have hnext : Next p z x y [] :=
    ⟨hz, by rw [List.length_append] at hlt; omega, fun hr => absurd rfl hr, fun hr => absurd rfl hr⟩
  have hblock := consumeBlock_upTo owner (h.image ho) hnext host.static_le
  have hincomplete := h.incomplete_upTo ho hlt
  rw [List.append_nil] at hblock
  rw [consumeThen, hblock]
  simp only [bind, Except.bind, hincomplete, if_true, require_of hy.symm]
  rfl

/-- What it makes of the last bytes. -/
theorem consumeThen_ends {expected : ℕ → ℤ}
    {finish : RecvBundle → RecvBlock → Except Fault (Option RecvBundle)}
    (h : BlockImage host b owner p z) (ho : owner ≠ .payload) (hx : x.length < z.length)
    (hz : x ++ y = z) (hroom : r ≠ [] → p.blockLen = 0 → p.offset < 64) :
    consumeThen host expected finish b (RecvBlock.upTo owner p x) (y ++ r) =
      (finish b (RecvBlock.upTo owner p z)).map fun
        | some b' => (some y.length, RecvBlock.upTo owner p z, b')
        | none => (none, RecvBlock.upTo owner p z, b) := by
  have hnext : Next p z x y r := ⟨hz ▸ List.prefix_rfl, hx, fun _ => hz, hroom⟩
  have hblock := consumeBlock_upTo owner (h.image ho) hnext host.static_le
  have hcomplete := h.complete_upTo ho
  rw [hz] at hblock
  rw [consumeThen, hblock]
  simp only [bind, Except.bind, hcomplete, Bool.true_eq_false, if_false]
  cases finish b (RecvBlock.upTo owner p z) with
  | error e => rfl
  | ok r => cases r <;> rfl

/-- The processor of the block on bytes within it. -/
theorem consumeOwner_waits (index : ℕ) (h : BlockImage host b owner p z) (hz : x ++ y <+: z)
    (hlt : (x ++ y).length < z.length) (hy : owner.narrow → y.length < 2 ^ 31) :
    consumeOwner host index (partOf b owner p x).2 (partOf b owner p x).1 y =
      .ok (some y.length, partOf b owner p (x ++ y)) := by
  have hx : x.length < z.length := by
    rw [List.length_append] at hlt
    omega
  have hnext : Next p z x y [] := ⟨hz, hx, fun hr => absurd rfl hr, fun hr => absurd rfl hr⟩
  by_cases ho : owner = .payload
  · subst ho
    have hpay := consumePayload_partOf (r := []) h hx hz fun hr => absurd rfl hr
    rw [List.append_nil] at hpay
    rw [partOf_payload, partOf_payload, ← hpay]
    have howner : (RecvBlock.payloadUpTo b.nodata p x).owner = .payload := by
      have hpart : (partOf b .payload p x).1.owner = .payload := owner_partOf
      rwa [partOf_payload] at hpart
    simp only [consumeOwner, howner]
  · have hblock := consumeBlock_upTo owner (h.image ho) hnext host.static_le
    have hincomplete := h.incomplete_upTo ho hlt
    rw [List.append_nil] at hblock
    rw [partOf_other b p _ ho, partOf_other b p _ ho]
    unfold consumeOwner
    dsimp only
    rw [RecvBlock.owner_upTo]
    cases owner with
    | payload => exact absurd rfl ho
    | primary =>
      have hnarrow : i32 y.length = y.length := i32_of_lt (hy (.inl rfl))
      rw [consumePrimaryBlock, consumePrimary, require_of, hblock]
      · simp only [bind, Except.bind, hincomplete, if_true, require_of hnarrow.symm]
        rfl
      · exact h.incomplete_upTo ho hx
    | previousHop => exact consumeThen_waits h ho hz hlt rfl
    | metadata => exact consumeThen_waits h ho hz hlt rfl
    | custodyTransferEnhancement => exact consumeThen_waits h ho hz hlt (i32_of_lt (hy (.inr rfl)))
    | extendedClassOfService => exact consumeThen_waits h ho hz hlt rfl
    | imcState => exact consumeThen_waits h ho hz hlt rfl
    | unknown =>
      rw [consumeUnknown, hblock]
      rfl

/-- Within a primary block or a custody block a long chunk is an error. -/
theorem consumeOwner_narrow (index : ℕ) (h : BlockImage host b owner p z) (hz : x ++ y <+: z)
    (hlt : (x ++ y).length < z.length) (ho : owner.narrow) (hy : 2 ^ 31 ≤ y.length) :
    ∃ e, consumeOwner host index (partOf b owner p x).2 (partOf b owner p x).1 y = .error e := by
  have hx : x.length < z.length := by
    rw [List.length_append] at hlt
    omega
  have hnext : Next p z x y [] := ⟨hz, hx, fun hr => absurd rfl hr, fun hr => absurd rfl hr⟩
  have hcast : ¬ ((y.length : ℤ) = i32 y.length) := by
    have := i32_lt y.length
    omega
  have hp : owner ≠ .payload := by rcases ho with rfl | rfl <;> decide
  have hblock := consumeBlock_upTo owner (h.image hp) hnext host.static_le
  have hincomplete := h.incomplete_upTo hp hlt
  have hbefore := h.incomplete_upTo hp hx
  rw [List.append_nil] at hblock
  rw [partOf_other b p _ hp]
  unfold consumeOwner
  dsimp only
  rw [RecvBlock.owner_upTo]
  rcases ho with rfl | rfl
  · dsimp only
    rw [consumePrimaryBlock, consumePrimary, require_of hbefore, hblock]
    simp only [bind, Except.bind, hincomplete, if_true]
    rw [require, if_neg hcast]
    exact ⟨_, rfl⟩
  · dsimp only
    rw [consumeThen, hblock]
    simp only [bind, Except.bind, hincomplete, if_true]
    rw [require, if_neg hcast]
    exact ⟨_, rfl⟩

/-- The processor of the block on its last bytes, with others behind them. -/
theorem consumeOwner_ends (index : ℕ) (h : BlockImage host b owner p z) (hx : x.length < z.length)
    (hz : x ++ y = z) (hroom : owner ≠ .payload → r ≠ [] → p.blockLen = 0 → p.offset < 64) :
    consumeOwner host index (partOf b owner p x).2 (partOf b owner p x).1 (y ++ r) =
      (finishOwner host index (partOf b owner p z).2 (partOf b owner p z).1).map fun
        | some b' => (some y.length, (partOf b owner p z).1, b')
        | none => (none, partOf b owner p z) := by
  unfold consumeOwner finishOwner
  rw [owner_partOf, owner_partOf]
  by_cases ho : owner = .payload
  · subst ho
    have hpay := consumePayload_partOf (r := r) h hx (hz ▸ List.prefix_rfl) fun _ => hz
    rw [hz] at hpay
    rw [partOf_payload, partOf_payload]
    exact hpay
  · have hnext : Next p z x y r := ⟨hz ▸ List.prefix_rfl, hx, fun _ => hz, hroom ho⟩
    have hblock := consumeBlock_upTo owner (h.image ho) hnext host.static_le
    have hcomplete := h.complete_upTo ho
    rw [hz] at hblock
    rw [partOf_other b p _ ho, partOf_other b p _ ho]
    cases owner with
    | payload => exact absurd rfl ho
    | primary =>
      dsimp only
      rw [consumePrimaryBlock, consumePrimary, require_of, hblock]
      · simp only [bind, Except.bind, hcomplete, Bool.true_eq_false, if_false]
        cases require ((RecvBlock.upTo .primary p z).fullLength =
            (RecvBlock.upTo .primary p z).contents.length) with
        | error e => rfl
        | ok u =>
          dsimp only
          cases parsePrimary b.dict b.fields (RecvBlock.upTo .primary p z) with
          | error e => rfl
          | ok r => cases r <;> rfl
      · exact h.incomplete_upTo ho hx
    | previousHop => exact consumeThen_ends h ho hx hz (hroom ho)
    | metadata => exact consumeThen_ends h ho hx hz (hroom ho)
    | custodyTransferEnhancement => exact consumeThen_ends h ho hx hz (hroom ho)
    | extendedClassOfService => exact consumeThen_ends h ho hx hz (hroom ho)
    | imcState => exact consumeThen_ends h ho hx hz (hroom ho)
    | unknown =>
      dsimp only
      rw [consumeUnknown, hblock]
      rfl

end

end Dtnme.Bundling
