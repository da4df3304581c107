import Dtnme.Library.StringTable
import Dtnme.Naming.EndpointId
import Dtnme.Bundling.BlockInfo

/-! # The dictionary of a bundle

Scheme and specific part of every endpoint id of a bundle of version 6 stand in one buffer, each once
and ended by a zero byte, and blocks refer to them by their offsets.
-/

namespace Dtnme.Bundling
open Library Naming

namespace Dictionary

/-- Compare the entries one after another; an offset past the end fails. -/
def getOffsetLoop (dict str : List UInt8) : ℕ → ℕ → Except Fault (Bool × ℕ)
  | 0, _ => .error .noReturn
  | fuel + 1, offset =>
    if offset < dict.length then
      let entry := cstr dict offset
      if str.take entry.length = entry ∧ str.length = entry.length then .ok (true, offset)
      else if offset + entry.length + 1 ≤ dict.length then
        getOffsetLoop dict str fuel (offset + entry.length + 1)
      else .error .assertFailed
    else .ok (false, offset)

def getOffset (dict str : List UInt8) : Except Fault (Bool × ℕ) :=
  getOffsetLoop dict str (dict.length + 1) 0

def addStr (dict str : List UInt8) : Except Fault (List UInt8) := do
  let (found, _) ← getOffset dict str
  pure (if found then dict else dict ++ str ++ [0])

section
variable (parse : List UInt8 → Option Uri)

def addEid (dict : List UInt8) (eid : Eid) : Except Fault (List UInt8) := do
  let dict ← addStr dict (eid.schemeStr parse)
  addStr dict (eid.ssp parse)

/-- The second offset stays as it was set before if the scheme is not found. -/
def getOffsets (dict : List UInt8) (eid : Eid) : Except Fault (ℕ × ℕ) := do
  let (found, schemeOffset) ← getOffset dict (eid.schemeStr parse)
  if found then do
    let (_, sspOffset) ← getOffset dict (eid.ssp parse)
    pure (schemeOffset, sspOffset)
  else pure (schemeOffset, 0)

end

def extractEid (dict : List UInt8) (schemeOffset sspOffset : ℕ) : Eid :=
  if dict.length = 0 then makeEidNull
  else if dict.length - 1 ≤ schemeOffset then makeEidNull
  else if dict.length - 1 ≤ sspOffset then makeEidNull
  else makeEidScheme (cstr dict schemeOffset) (cstr dict sspOffset)

/-! ## Entries -/

/-- Texts without a zero byte. -/
def Clean (l : List (List UInt8)) : Prop := ∀ s ∈ l, (0 : UInt8) ∉ s

theorem take_eq_iff {str s : List UInt8} :
    str.take s.length = s ∧ str.length = s.length ↔ str = s := by
  constructor
  · rintro ⟨htake, hlen⟩
    rw [← hlen, List.take_length] at htake
    exact htake
  · rintro rfl
    exact ⟨List.take_length, rfl⟩

theorem getOffsetLoop_table {str : List UInt8} (m : List (List UInt8)) :
    ∀ {l : List (List UInt8)} {fuel : ℕ}, Clean m → m.length < fuel →
      (str ∈ m → ∃ l₁ l₂, m = l₁ ++ str :: l₂ ∧
        getOffsetLoop (table (l ++ m)) str fuel (table l).length =
          .ok (true, (table (l ++ l₁)).length)) ∧
      (str ∉ m → getOffsetLoop (table (l ++ m)) str fuel (table l).length =
        .ok (false, (table (l ++ m)).length)) := by
  induction m with
  | nil =>
    intro l fuel _ hfuel
    obtain ⟨fuel, rfl⟩ := Nat.exists_eq_add_of_lt hfuel
    refine ⟨fun h => by simp at h, fun _ => ?_⟩
    rw [List.append_nil, getOffsetLoop, if_neg (lt_irrefl _)]
  | cons s m ih =>
    intro l fuel hclean hfuel
    obtain ⟨fuel, rfl⟩ : ∃ k, fuel = k + 1 := ⟨fuel - 1, by omega⟩
    have hlt : (table l).length < (table (l ++ s :: m)).length := by simp
    have hnext : (table l).length + s.length + 1 = (table (l ++ [s])).length := by simp; omega
    have hle : (table (l ++ [s])).length ≤ (table (l ++ s :: m)).length := by simp
    have hassoc : l ++ s :: m = l ++ [s] ++ m := by simp
    rw [getOffsetLoop, if_pos hlt, cstr_table (hclean s List.mem_cons_self)]
    by_cases hs : str = s
    · subst hs
      refine ⟨fun _ => ⟨[], m, rfl, ?_⟩, fun h => absurd List.mem_cons_self h⟩
      rw [if_pos (take_eq_iff.mpr rfl), List.append_nil]
    · rw [if_neg (mt take_eq_iff.mp hs), hnext, if_pos hle, hassoc]
      obtain ⟨hin, hout⟩ := ih (l := l ++ [s]) (fun t ht => hclean t (List.mem_cons_of_mem s ht))
        (Nat.lt_of_succ_lt_succ hfuel)
      refine ⟨fun hmem => ?_, fun hmem => hout (fun h => hmem (List.mem_cons_of_mem s h))⟩
      obtain ⟨l₁, l₂, hm, hget⟩ := hin ((List.mem_cons.mp hmem).resolve_left hs)
      refine ⟨s :: l₁, l₂, by rw [hm]; rfl, ?_⟩
      rw [hget]
      simp

theorem length_le_table (l : List (List UInt8)) : l.length ≤ (table l).length := by
  induction l with
  | nil => simp
  | cons s l ih =>
    simp only [table_cons, List.length_cons, List.length_append]
    omega

/-- An entry is found at the offset behind those before it. -/
theorem getOffset_of_mem {l : List (List UInt8)} (hl : Clean l) {str : List UInt8} (h : str ∈ l) :
    ∃ l₁ l₂, l = l₁ ++ str :: l₂ ∧ getOffset (table l) str = .ok (true, (table l₁).length) :=
  (getOffsetLoop_table l (l := []) hl (Nat.lt_succ_of_le (length_le_table l))).1 h

theorem getOffset_of_notMem {l : List (List UInt8)} (hl : Clean l) {str : List UInt8} (h : str ∉ l) :
    getOffset (table l) str = .ok (false, (table l).length) :=
  (getOffsetLoop_table l (l := []) hl (Nat.lt_succ_of_le (length_le_table l))).2 h

/-! ## Added texts -/

/-- A text at the end unless it is there. -/
def addLast (l : List (List UInt8)) (str : List UInt8) : List (List UInt8) :=
  if str ∈ l then l else l ++ [str]

theorem addStr_table {l : List (List UInt8)} (hl : Clean l) (str : List UInt8) :
    addStr (table l) str = .ok (table (addLast l str)) := by
  unfold addLast
  by_cases h : str ∈ l
  · obtain ⟨l₁, l₂, -, hget⟩ := getOffset_of_mem hl h
    rw [if_pos h, addStr, hget]
    rfl
  · rw [if_neg h, addStr, getOffset_of_notMem hl h]
    simp only [bind, Except.bind, pure, Except.pure, Bool.false_eq_true, if_false]
    simp

theorem mem_addLast {l : List (List UInt8)} {str s : List UInt8} :
    s ∈ addLast l str ↔ s ∈ l ∨ s = str := by
  unfold addLast
  by_cases h : str ∈ l
  · rw [if_pos h]
    constructor
    · exact .inl
    · rintro (hs | rfl)
      · exact hs
      · exact h
  · rw [if_neg h, List.mem_append, List.mem_singleton]

theorem Clean.addLast {l : List (List UInt8)} (hl : Clean l) {str : List UInt8}
    (hstr : (0 : UInt8) ∉ str) : Clean (addLast l str) := by
  intro s hs
  rcases mem_addLast.mp hs with h | rfl
  · exact hl s h
  · exact hstr

theorem length_table_addLast (l : List (List UInt8)) (str : List UInt8) :
    (table (addLast l str)).length ≤ (table l).length + (str.length + 1) := by
  unfold addLast
  split_ifs <;> simp

/-! ## Endpoint ids -/

section
variable {parse : List UInt8 → Option Uri}

/-- The two texts of an id. -/
def texts (u : Uri) : List (List UInt8) := [u.scheme, u.ssp]

theorem schemeStr_eq {e : Eid} {u : Uri} (h : e.uri? parse = some u) :
    e.schemeStr parse = u.scheme := by
  rw [Eid.schemeStr, h]
  rfl

theorem ssp_eq {e : Eid} {u : Uri} (h : e.uri? parse = some u) : e.ssp parse = u.ssp := by
  rw [Eid.ssp, h]
  rfl

theorem addEid_table {l : List (List UInt8)} (hl : Clean l) {e : Eid} {u : Uri}
    (h : e.uri? parse = some u) (hscheme : (0 : UInt8) ∉ u.scheme) :
    addEid parse (table l) e = .ok (table ((texts u).foldl addLast l)) := by
  rw [addEid, schemeStr_eq h, addStr_table hl, ssp_eq h]
  exact addStr_table (hl.addLast hscheme) _

theorem mem_foldl_addLast {s : List UInt8} (strs : List (List UInt8)) :
    ∀ {l : List (List UInt8)}, s ∈ strs.foldl addLast l ↔ s ∈ l ∨ s ∈ strs := by
  induction strs with
  | nil => simp
  | cons str strs ih =>
    intro l
    rw [List.foldl_cons, ih, mem_addLast, List.mem_cons, or_assoc]

theorem Clean.foldl_addLast {strs : List (List UInt8)} (hstrs : Clean strs)
    {l : List (List UInt8)} (hl : Clean l) : Clean (strs.foldl Dictionary.addLast l) := by
  intro s hs
  rcases (mem_foldl_addLast strs).mp hs with h | h
  · exact hl s h
  · exact hstrs s h

theorem length_table_foldl (strs : List (List UInt8)) : ∀ (l : List (List UInt8)),
    (table (strs.foldl addLast l)).length ≤
      (table l).length + (strs.map (fun s => s.length + 1)).sum := by
  induction strs with
  | nil => simp
  | cons str strs ih =>
    intro l
    have h₁ := ih (addLast l str)
    have h₂ := length_table_addLast l str
    simp only [List.foldl_cons, List.map_cons, List.sum_cons]
    omega

/-- An id whose texts are in the dictionary is extracted by its offsets. -/
theorem extractEid_getOffsets {l : List (List UInt8)} (hl : Clean l) {e : Eid} {u : Uri}
    (h : e.uri? parse = some u) (hmem : ∀ s ∈ texts u, s ∈ l) (hne : ∀ s ∈ texts u, s ≠ []) :
    ∃ so ss, getOffsets parse (table l) e = .ok (so, ss) ∧ so < (table l).length ∧
      ss < (table l).length ∧ extractEid (table l) so ss = makeEidScheme u.scheme u.ssp := by
  have hscheme : u.scheme ∈ texts u := List.mem_cons_self
  have hssp : u.ssp ∈ texts u := List.mem_cons_of_mem _ List.mem_cons_self
  obtain ⟨l₁, l₂, hl₁, hso⟩ := getOffset_of_mem hl (hmem _ hscheme)
  obtain ⟨m₁, m₂, hm₁, hss⟩ := getOffset_of_mem hl (hmem _ hssp)
  have hlt₁ := length_table_lt (l := l₁) (m := l₂) (hne _ hscheme)
  have hlt₂ := length_table_lt (l := m₁) (m := m₂) (hne _ hssp)
  have hc₁ := cstr_table (l := l₁) (m := l₂) (hl _ (hmem _ hscheme))
  have hc₂ := cstr_table (l := m₁) (m := m₂) (hl _ (hmem _ hssp))
  rw [← hl₁] at hlt₁ hc₁
  rw [← hm₁] at hlt₂ hc₂
  refine ⟨(table l₁).length, (table m₁).length, ?_, by omega, by omega, ?_⟩
  · rw [getOffsets, schemeStr_eq h, hso, ssp_eq h]
    simp only [bind, Except.bind, if_true, hss]
    rfl
  · rw [extractEid, if_neg (by omega), if_neg (by omega), if_neg (by omega), hc₁, hc₂]

end

end Dictionary

end Dtnme.Bundling
