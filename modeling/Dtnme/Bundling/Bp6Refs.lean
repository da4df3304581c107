import Dtnme.Bundling.Bp6Chunks
import Dtnme.Bundling.SdnvRecord

/-! # References to endpoint ids

A block of version 6 lists the ids that it refers to as offsets into the dictionary. The texts of an id
enter the dictionary when the block that needs them is generated, and those of later blocks stand behind
them, so that offsets stay what they are.
-/

namespace Dtnme.Bundling
open Library Naming

namespace Dictionary

/-! ## Growing dictionaries -/

theorem prefix_addLast (l : List (List UInt8)) (s : List UInt8) : l <+: addLast l s := by
  unfold addLast
  split_ifs
  · exact List.prefix_refl l
  · exact List.prefix_append l [s]

theorem prefix_foldl_addLast (strs : List (List UInt8)) : ∀ (l : List (List UInt8)),
    l <+: strs.foldl addLast l := by
  induction strs with
  | nil => exact List.prefix_refl
  | cons s strs ih => exact fun l => (prefix_addLast l s).trans (ih _)

theorem nodup_addLast {l : List (List UInt8)} (hl : l.Nodup) (s : List UInt8) :
    (addLast l s).Nodup := by
  unfold addLast
  split_ifs with h
  · exact hl
  · rw [List.nodup_append]
    refine ⟨hl, List.nodup_singleton s, fun a ha b hb hab => h ?_⟩
    rw [List.mem_singleton] at hb
    rwa [hab, hb] at ha

theorem nodup_foldl_addLast (strs : List (List UInt8)) : ∀ {l : List (List UInt8)}, l.Nodup →
    (strs.foldl addLast l).Nodup := by
  induction strs with
  | nil => exact fun h => h
  | cons s strs ih => exact fun h => ih (nodup_addLast h s)

/-! ## Offsets of texts -/

/-- Where a text starts that is in the dictionary. -/
def offsetOf (l : List (List UInt8)) (s : List UInt8) : ℕ := (table (l.takeWhile (· ≠ s))).length

theorem takeWhile_ne {s : List UInt8} {l m : List (List UInt8)} (h : s ∉ l) :
    (l ++ s :: m).takeWhile (· ≠ s) = l := by
  induction l with
  | nil => simp
  | cons t l ih =>
    have ht : t ≠ s := fun hts => h (hts ▸ List.mem_cons_self)
    have hrest := ih fun hs => h (List.mem_cons_of_mem t hs)
    rw [List.cons_append, List.takeWhile_cons, decide_eq_true ht, if_pos rfl, hrest]

/-- The place of a text. -/
theorem exists_split {l : List (List UInt8)} {s : List UInt8} (h : s ∈ l) :
    ∃ l₁ l₂, l = l₁ ++ s :: l₂ ∧ s ∉ l₁ ∧ offsetOf l s = (table l₁).length := by
  obtain ⟨l₁, l₂, hsplit, hfirst⟩ := List.eq_append_cons_of_mem h
  exact ⟨l₁, l₂, hsplit, hfirst, by rw [offsetOf, hsplit, takeWhile_ne hfirst]⟩

theorem offsetOf_prefix {l m : List (List UInt8)} (hm : l <+: m) {s : List UInt8} (h : s ∈ l) :
    offsetOf m s = offsetOf l s := by
  obtain ⟨l₁, l₂, hsplit, hfirst, hoff⟩ := exists_split h
  obtain ⟨rest, hrest⟩ := hm
  rw [hoff, offsetOf, ← hrest, hsplit, List.append_assoc, List.cons_append, takeWhile_ne hfirst]

theorem cstr_offsetOf {l : List (List UInt8)} (hl : Clean l) {s : List UInt8} (h : s ∈ l) :
    cstr (table l) (offsetOf l s) = s := by
  obtain ⟨l₁, l₂, hsplit, -, hoff⟩ := exists_split h
  rw [hoff, hsplit, cstr_table (hl s h)]

theorem getOffset_eq {l : List (List UInt8)} (hl : Clean l) (hn : l.Nodup) {s : List UInt8}
    (h : s ∈ l) : getOffset (table l) s = .ok (true, offsetOf l s) := by
  obtain ⟨l₁, l₂, hsplit, hget⟩ := getOffset_of_mem hl h
  have hfirst : s ∉ l₁ := by
    rw [hsplit, List.nodup_append] at hn
    exact fun hs => hn.2.2 s hs s List.mem_cons_self rfl
  rw [hget, offsetOf, hsplit, takeWhile_ne hfirst]

theorem offsetOf_lt {l : List (List UInt8)} {s : List UInt8} (h : s ∈ l) :
    offsetOf l s < (table l).length := by
  obtain ⟨l₁, l₂, hsplit, -, hoff⟩ := exists_split h
  rw [hoff, hsplit]
  simp

/-- Only an empty text can stand where nothing is extracted from: at the end. -/
theorem offsetOf_lt_iff {l : List (List UInt8)} (hn : l.Nodup) {s : List UInt8} (h : s ∈ l) :
    offsetOf l s < (table l).length - 1 ↔ ¬ (s = [] ∧ l.getLast? = some []) := by
  obtain ⟨l₁, l₂, hsplit, -, hoff⟩ := exists_split h
  have hlen : (table l).length = (table l₁).length + (s.length + 1 + (table l₂).length) := by
    rw [hsplit, table_append, table_cons]
    simp only [List.length_append, List.length_cons]
    omega
  rw [hoff, hlen]
  constructor
  · rintro hlt ⟨rfl, hlast⟩
    cases hl₂ : l₂ with
    | nil => simp [hl₂] at hlt
    | cons t l₃ =>
      -- an empty text is there only once
      rw [hsplit, hl₂, List.getLast?_append, List.getLast?_cons_cons] at hlast
      have hmem : ([] : List UInt8) ∈ t :: l₃ := by
        cases hg : (t :: l₃).getLast? with
        | none => simp at hg
        | some x =>
          rw [hg, Option.some_or] at hlast
          cases hlast
          exact List.mem_of_getLast? hg
      rw [hsplit, hl₂, List.nodup_append] at hn
      exact (List.nodup_cons.mp hn.2.1).1 hmem
  · intro hno
    by_cases hs : s = []
    · subst hs
      have hl₂ : l₂ ≠ [] := by
        rintro rfl
        exact hno ⟨rfl, by rw [hsplit]; simp⟩
      have hpos := length_le_table l₂
      have := List.length_pos_of_ne_nil hl₂
      simp only [List.length_nil]
      omega
    · have := List.length_pos_of_ne_nil hs
      omega

/-! ## Texts of any id -/

section
variable (parse : List UInt8 → Option Uri)

/-- What `add_eid` adds; an id that is not valid has empty texts. -/
def parts (e : Eid) : List (List UInt8) := [e.schemeStr parse, e.ssp parse]

/-- The texts behind `l` when ids were added. -/
def entries (l : List (List UInt8)) (es : List Eid) : List (List UInt8) :=
  es.foldl (fun l e => (parts parse e).foldl addLast l) l

instance decidableNilMemParts (e : Eid) : Decidable ([] ∈ parts parse e) :=
  decidable_of_iff ((parts parse e).contains [] = true) List.contains_iff_mem

/-- What a reader makes of the offsets of an id. -/
def restored (l : List (List UInt8)) (e : Eid) : Eid :=
  if [] ∈ parts parse e ∧ l.getLast? = some [] then makeEidNull
  else makeEidScheme (e.schemeStr parse) (e.ssp parse)

end

section
variable {parse : List UInt8 → Option Uri}

theorem clean_parts (hU : IsUri parse) (e : Eid) : Clean (parts parse e) := by
  intro s hs
  cases h : e.uri? parse with
  | none =>
    have hscheme : e.schemeStr parse = [] := by rw [Eid.schemeStr, h]; rfl
    have hssp : e.ssp parse = [] := by rw [Eid.ssp, h]; rfl
    simp only [parts, hscheme, hssp, List.mem_cons, List.not_mem_nil, or_false, or_self] at hs
    simp [hs]
  | some u =>
    have hzero := hU.zero_notMem (Eid.uri?_eq_some.mp h).1
    simp only [Uri.str, List.mem_append, not_or] at hzero
    simp only [parts, schemeStr_eq h, ssp_eq h, List.mem_cons, List.not_mem_nil, or_false] at hs
    rcases hs with rfl | rfl
    · exact hzero.1.1
    · exact hzero.2

theorem entries_cons (l : List (List UInt8)) (e : Eid) (es : List Eid) :
    entries parse l (e :: es) = entries parse ((parts parse e).foldl addLast l) es := rfl

theorem entries_append (l : List (List UInt8)) (es fs : List Eid) :
    entries parse l (es ++ fs) = entries parse (entries parse l es) fs := List.foldl_append

theorem prefix_entries (parse : List UInt8 → Option Uri) (es : List Eid) :
    ∀ (l : List (List UInt8)), l <+: entries parse l es := by
  induction es with
  | nil => exact List.prefix_refl
  | cons e es ih => exact fun l => (prefix_foldl_addLast _ l).trans (ih _)

theorem nodup_entries (es : List Eid) : ∀ {l : List (List UInt8)}, l.Nodup →
    (entries parse l es).Nodup := by
  induction es with
  | nil => exact fun h => h
  | cons e es ih => exact fun h => ih (nodup_foldl_addLast _ h)

theorem clean_entries (hU : IsUri parse) (es : List Eid) : ∀ {l : List (List UInt8)}, Clean l →
    Clean (entries parse l es) := by
  induction es with
  | nil => exact fun h => h
  | cons e es ih => exact fun h => ih ((clean_parts hU e).foldl_addLast h)

theorem mem_entries {e : Eid} {es : List Eid} (h : e ∈ es) {s : List UInt8} (hs : s ∈ parts parse e) :
    ∀ (l : List (List UInt8)), s ∈ entries parse l es := by
  induction es with
  | nil => cases h
  | cons f es ih =>
    intro l
    rcases List.mem_cons.mp h with rfl | h
    · exact (prefix_entries parse es _).subset ((mem_foldl_addLast _).mpr (.inr hs))
    · exact ih h _

theorem addEid_parts (hU : IsUri parse) {l : List (List UInt8)} (hl : Clean l) (e : Eid) :
    addEid parse (table l) e = .ok (table ((parts parse e).foldl addLast l)) := by
  rw [addEid, addStr_table hl]
  exact addStr_table (hl.addLast (clean_parts hU e _ List.mem_cons_self)) _

theorem addEids_entries (hU : IsUri parse) (es : List Eid) : ∀ {l : List (List UInt8)}, Clean l →
    addEids parse es (table l) = .ok (table (entries parse l es)) := by
  induction es with
  | nil => exact fun _ => rfl
  | cons e es ih =>
    intro l hl
    rw [addEids, addEid_parts hU hl]
    exact ih ((clean_parts hU e).foldl_addLast hl)

theorem getOffsets_eq {l : List (List UInt8)} (hl : Clean l) (hn : l.Nodup) {e : Eid}
    (h : ∀ s ∈ parts parse e, s ∈ l) : getOffsets parse (table l) e =
      .ok (offsetOf l (e.schemeStr parse), offsetOf l (e.ssp parse)) := by
  rw [getOffsets, getOffset_eq hl hn (h _ List.mem_cons_self)]
  simp only [ok_bind, if_true]
  rw [getOffset_eq hl hn (h _ (List.mem_cons_of_mem _ List.mem_cons_self))]
  rfl

theorem extractEid_restored {l : List (List UInt8)} (hl : Clean l) (hn : l.Nodup) {e : Eid}
    (h : ∀ s ∈ parts parse e, s ∈ l) :
    extractEid (table l) (offsetOf l (e.schemeStr parse)) (offsetOf l (e.ssp parse)) =
      restored parse l e := by
  have hscheme := h _ List.mem_cons_self
  have hssp := h _ (List.mem_cons_of_mem _ List.mem_cons_self)
  have hs := offsetOf_lt_iff hn hscheme
  have hp := offsetOf_lt_iff hn hssp
  have hpos := offsetOf_lt hscheme
  rw [extractEid, if_neg (by omega), restored]
  by_cases hlast : l.getLast? = some []
  · simp only [hlast, and_true] at hs hp ⊢
    by_cases hempty : [] ∈ parts parse e
    · rw [if_pos hempty]
      simp only [parts, List.mem_cons, List.not_mem_nil, or_false] at hempty
      rcases hempty with hempty | hempty
      · rw [if_pos (Nat.not_lt.mp (mt hs.mp (not_not.mpr hempty.symm)))]
      · have hle := Nat.not_lt.mp (mt hp.mp (not_not.mpr hempty.symm))
        rw [if_pos hle, ite_self]
    · rw [if_neg hempty]
      simp only [parts, List.mem_cons, List.not_mem_nil, or_false, not_or] at hempty
      rw [if_neg (Nat.not_le.mpr (hs.mpr (Ne.symm hempty.1))),
        if_neg (Nat.not_le.mpr (hp.mpr (Ne.symm hempty.2))), cstr_offsetOf hl hscheme,
        cstr_offsetOf hl hssp]
  · simp only [hlast, and_false, not_false_eq_true, iff_true, if_false] at hs hp ⊢
    rw [if_neg (Nat.not_le.mpr hs), if_neg (Nat.not_le.mpr hp), cstr_offsetOf hl hscheme,
      cstr_offsetOf hl hssp]

end

end Dictionary

/-! ## Writing references -/

open SdnvRecord

/-- `SDNV::encode` into a work area whose end nobody watches: a failure moves the address back. -/
def putWork (val : ℕ) (s : Scratch) : Scratch :=
  match encode val s.len with
  | some bytes => { out := s.out ++ bytes, len := s.len - bytes.length }
  | none => { out := s.out.dropLast, len := s.len + 1 }

def putWorks (vals : List ℕ) (s : Scratch) : Scratch := vals.foldl (fun s val => putWork val s) s

/-- The loop over the ids, which adds each to the dictionary and writes its offsets. -/
def writeRefs (parse : List UInt8 → Option Uri) :
    List Eid → List UInt8 → Scratch → Except Fault (Scratch × List UInt8)
  | [], dict, s => pure (s, dict)
  | e :: es, dict, s => do
    let dict ← Dictionary.addEid parse dict e
    let (schemeOffset, sspOffset) ← Dictionary.getOffsets parse dict e
    writeRefs parse es dict (putWork sspOffset (putWork schemeOffset s))

/-- The offsets of ids in a dictionary. -/
def refVals (parse : List UInt8 → Option Uri) (l : List (List UInt8)) (es : List Eid) : List ℕ :=
  es.flatMap fun e =>
    [Dictionary.offsetOf l (e.schemeStr parse), Dictionary.offsetOf l (e.ssp parse)]

theorem putWork_fits {val : ℕ} (h : val < 2 ^ 64) {s : Scratch} (hs : encodingLen val ≤ s.len) :
    putWork val s = { out := s.out ++ sdnv val, len := s.len - encodingLen val } := by
  have henc : encode val s.len = some (sdnv val) := by
    rw [encode, if_neg (by omega)]
    rfl
  rw [putWork, henc, ← length_sdnv h]

theorem putWork_short {val : ℕ} {s : Scratch} (hs : s.len < encodingLen val) :
    putWork val s = { out := s.out.dropLast, len := s.len + 1 } := by
  have henc : encode val s.len = none := by rw [encode, if_pos hs]
  rw [putWork, henc]

/-- What is written and the room are the work area, unless there is less room than that. -/
theorem putWork_total {val : ℕ} (h : val < 2 ^ 64) {s : Scratch} (hs : 10 ≤ s.out.length + s.len) :
    (putWork val s).out.length + (putWork val s).len = s.out.length + s.len := by
  have hmax := encodingLen_le_max h
  simp only [maxLength] at hmax
  by_cases hfits : encodingLen val ≤ s.len
  · rw [putWork_fits h hfits]
    simp only [List.length_append, length_sdnv h]
    omega
  · rw [putWork_short (Nat.lt_of_not_le hfits)]
    simp only [List.length_dropLast]
    omega

/-- Near the end it stays near the end. -/
theorem putWork_len_le {val : ℕ} (h : val < 2 ^ 64) {s : Scratch} (hs : s.len ≤ 10) :
    (putWork val s).len ≤ 10 := by
  have hmax := encodingLen_le_max h
  simp only [maxLength] at hmax
  by_cases hfits : encodingLen val ≤ s.len
  · rw [putWork_fits h hfits]
    exact le_trans (Nat.sub_le _ _) hs
  · rw [putWork_short (Nat.lt_of_not_le hfits)]
    simp only
    omega

theorem putWorks_cons (val : ℕ) (vals : List ℕ) (s : Scratch) :
    putWorks (val :: vals) s = putWorks vals (putWork val s) := rfl

theorem putWorks_total {vals : List ℕ} (h : Words vals) : ∀ {s : Scratch},
    10 ≤ s.out.length + s.len →
      (putWorks vals s).out.length + (putWorks vals s).len = s.out.length + s.len := by
  induction vals with
  | nil => exact fun _ => rfl
  | cons val vals ih =>
    intro s hs
    have hone := putWork_total (h val List.mem_cons_self) hs
    rw [putWorks_cons, ih (fun v hv => h v (List.mem_cons_of_mem val hv)) (hone ▸ hs), hone]

theorem putWorks_len_le {vals : List ℕ} (h : Words vals) : ∀ {s : Scratch}, s.len ≤ 10 →
    (putWorks vals s).len ≤ 10 := by
  induction vals with
  | nil => exact fun hs => hs
  | cons val vals ih =>
    intro s hs
    exact ih (fun v hv => h v (List.mem_cons_of_mem val hv))
      (putWork_len_le (h val List.mem_cons_self) hs)

/-- The values, or the end of the work area. -/
theorem putWorks_out {vals : List ℕ} (h : Words vals) : ∀ {s : Scratch},
    (encodingLens vals ≤ s.len ∧ (putWorks vals s).out = s.out ++ sdnvs vals) ∨
      (s.len < encodingLens vals ∧ (putWorks vals s).len ≤ 10) := by
  induction vals with
  | nil => exact fun {s} => .inl ⟨Nat.zero_le _, by simp [putWorks, sdnvs]⟩
  | cons val vals ih =>
    intro s
    have hval := h val List.mem_cons_self
    have hvals : Words vals := fun v hv => h v (List.mem_cons_of_mem val hv)
    have hsum : encodingLens (val :: vals) = encodingLen val + encodingLens vals := by
      simp [encodingLens]
    have hmax := encodingLen_le_max hval
    simp only [maxLength] at hmax
    rw [putWorks_cons, hsum]
    by_cases hfits : encodingLen val ≤ s.len
    · have hnext := ih hvals (s := putWork val s)
      rw [putWork_fits hval hfits] at hnext ⊢
      simp only at hnext
      rcases hnext with ⟨hle, hout⟩ | ⟨hlt, hlen⟩
      · refine .inl ⟨by omega, ?_⟩
        rw [hout]
        simp [sdnvs]
      · exact .inr ⟨by omega, hlen⟩
    · refine .inr ⟨by omega, putWorks_len_le hvals ?_⟩
      rw [putWork_short (Nat.lt_of_not_le hfits)]
      simp only
      omega

section
variable {parse : List UInt8 → Option Uri}

theorem writeRefs_eq (hU : IsUri parse) (es : List Eid) : ∀ {l : List (List UInt8)} {s : Scratch},
    Dictionary.Clean l → l.Nodup → writeRefs parse es (table l) s =
      .ok (putWorks (refVals parse (Dictionary.entries parse l es) es) s,
        table (Dictionary.entries parse l es)) := by
  induction es with
  | nil => exact fun _ _ => rfl
  | cons e es ih =>
    intro l s hl hn
    set l₁ := (Dictionary.parts parse e).foldl Dictionary.addLast l with hl₁
    have hclean : Dictionary.Clean l₁ := (Dictionary.clean_parts hU e).foldl_addLast hl
    have hnodup : l₁.Nodup := Dictionary.nodup_foldl_addLast _ hn
    have hmem : ∀ t ∈ Dictionary.parts parse e, t ∈ l₁ := fun t ht =>
      (Dictionary.mem_foldl_addLast _).mpr (.inr ht)
    have hgrow := Dictionary.prefix_entries parse es l₁
    -- later ids do not move the offsets
    have hscheme := Dictionary.offsetOf_prefix hgrow (hmem _ List.mem_cons_self)
    have hssp := Dictionary.offsetOf_prefix hgrow (hmem _ (List.mem_cons_of_mem _ List.mem_cons_self))
    rw [writeRefs, Dictionary.addEid_parts hU hl, ← hl₁]
    change (do
      let (schemeOffset, sspOffset) ← Dictionary.getOffsets parse (table l₁) e
      writeRefs parse es (table l₁) (putWork sspOffset (putWork schemeOffset s))) = _
    rw [Dictionary.getOffsets_eq hclean hnodup hmem]
    change writeRefs parse es (table l₁) _ = _
    rw [ih hclean hnodup, ← hscheme, ← hssp, Dictionary.entries_cons, ← hl₁]
    rfl

theorem words_refVals {l : List (List UInt8)} (hlen : (table l).length < 2 ^ 64) {es : List Eid}
    (h : ∀ e ∈ es, ∀ s ∈ Dictionary.parts parse e, s ∈ l) : Words (refVals parse l es) := by
  intro v hv
  obtain ⟨e, he, hve⟩ := List.mem_flatMap.mp hv
  simp only [List.mem_cons, List.not_mem_nil, or_false] at hve
  have hparts := h e he
  rcases hve with rfl | rfl
  · exact lt_trans (Dictionary.offsetOf_lt (hparts _ List.mem_cons_self)) hlen
  · exact lt_trans (Dictionary.offsetOf_lt
      (hparts _ (List.mem_cons_of_mem _ List.mem_cons_self))) hlen

end

/-! ## Reading references -/

theorem sdnvs_append (vals ws : List ℕ) : sdnvs (vals ++ ws) = sdnvs vals ++ sdnvs ws :=
  List.flatMap_append

theorem encodingLens_append (vals ws : List ℕ) :
    encodingLens (vals ++ ws) = encodingLens vals + encodingLens ws := by
  simp [encodingLens]

/-- Pairs that stand one after another are read, each into an id. -/
theorem eidLoop_pairs {dict contents rest : List UInt8} {count : ℕ} (hcount : count < 2 ^ 32)
    (f : Eid → ℕ × ℕ) (es : List Eid) : ∀ {fuel i off : ℕ} {acc : List Eid}, es.length < fuel →
      i + es.length = count → Words (es.flatMap fun e => [(f e).1, (f e).2]) →
      contents.drop off = sdnvs (es.flatMap fun e => [(f e).1, (f e).2]) ++ rest →
      eidLoop dict contents count fuel i off acc =
        some (acc ++ es.map fun e => Dictionary.extractEid dict (f e).1 (f e).2,
          off + encodingLens (es.flatMap fun e => [(f e).1, (f e).2])) := by
  induction es with
  | nil =>
    intro fuel i off acc hfuel hi _ _
    obtain ⟨fuel, rfl⟩ : ∃ k, fuel = k + 1 := ⟨fuel - 1, by omega⟩
    rw [List.length_nil, Nat.add_zero] at hi
    rw [eidLoop, if_neg (by omega)]
    simp [encodingLens]
  | cons e es ih =>
    intro fuel i off acc hfuel hi hwords hdrop
    rw [List.length_cons] at hfuel hi
    obtain ⟨fuel, rfl⟩ : ∃ k, fuel = k + 1 := ⟨fuel - 1, by omega⟩
    rw [List.flatMap_cons] at hwords hdrop
    have hfirst : (f e).1 < 2 ^ 64 := hwords _ (by simp)
    have hsecond : (f e).2 < 2 ^ 64 := hwords _ (by simp)
    have hrest : Words (es.flatMap fun e => [(f e).1, (f e).2]) := fun v hv =>
      hwords v (List.mem_append_right _ hv)
    have hsplit : contents.drop off = sdnv (f e).1 ++ (sdnv (f e).2 ++
        (sdnvs (es.flatMap fun e => [(f e).1, (f e).2]) ++ rest)) := by
      rw [hdrop, sdnvs_append]
      simp [sdnvs]
    have hdrop₁ : contents.drop (off + encodingLen (f e).1) = sdnv (f e).2 ++
        (sdnvs (es.flatMap fun e => [(f e).1, (f e).2]) ++ rest) := by
      rw [← List.drop_drop, hsplit, ← length_sdnv hfirst, List.drop_left]
    have hdrop₂ : contents.drop (off + encodingLen (f e).1 + encodingLen (f e).2) =
        sdnvs (es.flatMap fun e => [(f e).1, (f e).2]) ++ rest := by
      rw [← List.drop_drop, hdrop₁, ← length_sdnv hsecond, List.drop_left]
    have hnext : u32 (i + 1) = i + 1 := u32_of_lt (by omega)
    rw [eidLoop, if_pos (by omega), hsplit, readSdnv_sdnv hfirst, Option.bind_some]
    dsimp only
    rw [hdrop₁, readSdnv_sdnv hsecond, Option.bind_some]
    dsimp only
    rw [hnext, ih (by omega) (by omega) hrest hdrop₂, List.map_cons, List.append_assoc,
      List.singleton_append, List.flatMap_cons, encodingLens_append]
    simp only [encodingLens, List.map_cons, List.map_nil, List.sum_cons, List.sum_nil, Nat.add_zero,
      Nat.add_assoc]

/-- The counter of 32 bits has counted every reference that was read. -/
theorem eidLoop_count {dict contents : List UInt8} {count o : ℕ} {r : List Eid} (fuel : ℕ) :
    ∀ {i off : ℕ} {acc : List Eid}, i < 2 ^ 32 →
      eidLoop dict contents count fuel i off acc = some (r, o) →
        count < 2 ^ 32 ∧ r.length = acc.length + (count - i) := by
  induction fuel with
  | zero => intro i off acc _ h; simp [eidLoop] at h
  | succ fuel ih =>
    intro i off acc hi h
    rw [eidLoop] at h
    split_ifs at h with hlt
    · obtain ⟨⟨so, n⟩, -, h⟩ := Option.bind_eq_some_iff.mp h
      obtain ⟨⟨ss, k⟩, -, h⟩ := Option.bind_eq_some_iff.mp h
      have hwrap : u32 (i + 1) < 2 ^ 32 := by
        unfold u32
        exact Nat.mod_lt _ (by norm_num)
      obtain ⟨hcount, hlen⟩ := ih hwrap h
      have hnext : u32 (i + 1) = i + 1 := by
        by_contra hno
        -- the counter starts again and the bound is out of its reach
        have hmax : ¬ i + 1 < 2 ^ 32 := fun hlt => hno (u32_of_lt hlt)
        omega
      rw [hnext, List.length_append, List.length_singleton] at hlen
      exact ⟨hcount, by omega⟩
    · cases h
      exact ⟨by omega, by omega⟩

/-- There are no more references than a counter of 32 bits counts. -/
theorem eidRefs_count {dict contents : List UInt8} {flags off o : ℕ} {r : List Eid}
    (h : eidRefs dict contents flags off = some (r, o)) :
    r.length < 2 ^ 32 ∧ (flags.testBit 6 = false → r = []) := by
  unfold eidRefs at h
  split_ifs at h with hf
  · obtain ⟨⟨count, n⟩, -, h⟩ := Option.bind_eq_some_iff.mp h
    obtain ⟨hcount, hlen⟩ := eidLoop_count _ (by norm_num) h
    rw [List.length_nil] at hlen
    refine ⟨by omega, fun hno => ?_⟩
    rw [hf] at hno
    cases hno
  · cases h
    exact ⟨by norm_num, fun _ => rfl⟩

end Dtnme.Bundling
