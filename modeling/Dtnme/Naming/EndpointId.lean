import Dtnme.Library.Strtoull

/-! # Endpoint ids

An endpoint id is a URI of which the scheme decides what is valid. `oasys::URI` is a parameter: it
splits a text into its parts and brings them into their normal form. The pool keeps an id under the
text that it was made from.
-/

namespace Dtnme.Naming
open Library

/-- The bytes of a literal. -/
def text (s : String) : List UInt8 := s.toList.map (fun c => UInt8.ofNat c.toNat)

/-- The parts of a valid URI that are used of it. -/
structure Uri where
  scheme : List UInt8
  ssp : List UInt8
  host : List UInt8
  path : List UInt8
  deriving DecidableEq, Repr

def Uri.str (u : Uri) : List UInt8 := u.scheme ++ text ":" ++ u.ssp

/-- The schemes of `SchemeTable`. -/
inductive Scheme
  | dtn
  | ipn
  | imc
  | wildcard
  deriving DecidableEq, Repr

def lookup (scheme : List UInt8) : Option Scheme :=
  if scheme = text "dtn" then some .dtn
  else if scheme = text "ipn" then some .ipn
  else if scheme = text "imc" then some .imc
  else if scheme = text "*" then some .wildcard
  else none

/-! ## Numbers -/

def isSpace (c : UInt8) : Bool := c.toNat = 32 || (9 ≤ c.toNat && c.toNat ≤ 13)

/-- `strtoull` in base 10: the value and the number of bytes used, none if there are no digits. -/
def strtoull (s : List UInt8) : ℕ × ℕ := Strtoull.strtoull UInt8.toNat 10 s

/-- Node and service of an ssp. -/
def parseNumbers (ssp : List UInt8) : Option (ℕ × ℕ) :=
  let dot := ssp.findIdx (· = 46)
  if dot = 0 || dot = ssp.length then none
  else
    let (node, used) := strtoull ssp
    if used ≠ dot then none
    else
      let (service, used) := strtoull (ssp.drop (dot + 1))
      if used = 0 || dot + 1 + used ≠ ssp.length then none else some (node, service)

def parseIpn (ssp : List UInt8) : Option (ℕ × ℕ) :=
  if ssp = text "none" then some (0, 0) else parseNumbers ssp

def parseImc (ssp : List UInt8) : Option (ℕ × ℕ) := parseNumbers ssp

/-! ## Endpoint ids of the pool -/

/-- `MAX_EID_PART_LENGTH`. -/
def maxPartLength : ℕ := 1023

namespace Uri

def scheme? (u : Uri) : Option Scheme := lookup u.scheme

def fits (u : Uri) : Bool := u.scheme.length ≤ maxPartLength && u.ssp.length ≤ maxPartLength

/-- The check of the scheme; an unknown one has none, and the wildcard is for patterns. -/
def validate (u : Uri) : Bool :=
  u.fits &&
    match u.scheme? with
    | some .dtn => u.host ≠ [] || u.ssp = text "none"
    | some .ipn => (parseIpn u.ssp).isSome
    | some .imc => (parseImc u.ssp).isSome
    | some .wildcard => false
    | none => true

/-- `set_node_num`. -/
def numbers (u : Uri) : ℕ × ℕ :=
  match u.scheme? with
  | some .ipn => (parseIpn u.ssp).getD (0, 0)
  | some .imc => (parseImc u.ssp).getD (0, 0)
  | _ => (0, 0)

def isNull (u : Uri) : Bool := u.scheme? = some .dtn && u.ssp = text "none"

/-- Schemes that are not known have more than one node. -/
def isSingleton (u : Uri) : Bool :=
  match u.scheme? with
  | some .dtn => !((text "/~").isPrefixOf u.path || u.host.contains 42)
  | some .ipn => true
  | some .imc => false
  | some .wildcard => false
  | none => false

end Uri

structure Eid where
  key : List UInt8
  deriving DecidableEq, Repr

section
variable (parse : List UInt8 → Option Uri)

namespace Eid

/-- The URI of a valid id. -/
def uri? (e : Eid) : Option Uri := (parse e.key).filter Uri.validate

def valid (e : Eid) : Bool := (e.uri? parse).isSome

/-- `scheme_`, which is set before its check. -/
def scheme? (e : Eid) : Option Scheme := ((parse e.key).filter Uri.fits).bind Uri.scheme?

def numbers (e : Eid) : ℕ × ℕ := ((e.uri? parse).map Uri.numbers).getD (0, 0)

def nodeNum (e : Eid) : ℕ := (e.numbers parse).1

def serviceNum (e : Eid) : ℕ := (e.numbers parse).2

def isNull (e : Eid) : Bool := (e.uri? parse).any Uri.isNull

def isCbheCompat (e : Eid) : Bool :=
  e.scheme? parse = some .ipn || e.scheme? parse = some .imc || e.isNull parse

def isSingleton (e : Eid) : Bool := ((parse e.key).filter Uri.fits).any Uri.isSingleton

/-- The parts of a valid id's text. -/
def schemeStr (e : Eid) : List UInt8 := ((e.uri? parse).map Uri.scheme).getD []

def ssp (e : Eid) : List UInt8 := ((e.uri? parse).map Uri.ssp).getD []

end Eid

end

def makeEidIpn (node service : ℕ) : Eid :=
  ⟨text "ipn:" ++ decimal node ++ text "." ++ decimal service⟩

def makeEidImc (group service : ℕ) : Eid :=
  ⟨text "imc:" ++ decimal group ++ text "." ++ decimal service⟩

def makeEidScheme (scheme ssp : List UInt8) : Eid := ⟨scheme ++ text ":" ++ ssp⟩

def makeEidNull : Eid := ⟨text "dtn:none"⟩

/-! ## What is asked of the URI class -/

/-- The normal form of a valid URI is parsed into the same parts, it has no zero byte and no empty
scheme, a host is part of the ssp, and two numbers are a normal form. -/
structure IsUri (parse : List UInt8 → Option Uri) : Prop where
  reparse : ∀ {t u}, parse t = some u → u.validate = true → u.scheme?.isSome → parse u.str = some u
  zero_notMem : ∀ {t u}, parse t = some u → (0 : UInt8) ∉ u.str
  scheme_ne_nil : ∀ {t u}, parse t = some u → u.scheme ≠ []
  host_eq_nil : ∀ {t u}, parse t = some u → u.ssp = [] → u.host = []
  numbers : ∀ scheme ∈ [text "ipn", text "imc"], ∀ n m, ∃ u,
    parse (scheme ++ text ":" ++ (decimal n ++ text "." ++ decimal m)) = some u ∧ u.scheme = scheme ∧
      u.ssp = decimal n ++ text "." ++ decimal m

theorem lookup_eq_dtn {s : List UInt8} (h : lookup s = some .dtn) : s = text "dtn" := by
  by_contra hs
  rw [lookup, if_neg hs] at h
  split_ifs at h <;> cases h

theorem Uri.isNull_iff {u : Uri} : u.isNull = true ↔ u.scheme = text "dtn" ∧ u.ssp = text "none" := by
  rw [isNull, Bool.and_eq_true, decide_eq_true_eq, decide_eq_true_eq]
  refine and_congr_left fun _ => ⟨lookup_eq_dtn, fun h => ?_⟩
  rw [scheme?, h]
  decide

theorem strtoull_lt (s : List UInt8) : (strtoull s).1 < 2 ^ 64 := Strtoull.strtoull_lt 10 s

theorem parseNumbers_lt {ssp : List UInt8} {p : ℕ × ℕ} (h : parseNumbers ssp = some p) :
    p.1 < 2 ^ 64 ∧ p.2 < 2 ^ 64 := by
  unfold parseNumbers at h
  dsimp only at h
  split_ifs at h
  cases h
  exact ⟨strtoull_lt _, strtoull_lt _⟩

theorem parseIpn_lt {ssp : List UInt8} {p : ℕ × ℕ} (h : parseIpn ssp = some p) :
    p.1 < 2 ^ 64 ∧ p.2 < 2 ^ 64 := by
  unfold parseIpn at h
  split_ifs at h
  · cases h
    norm_num
  · exact parseNumbers_lt h

theorem parseNumbers_nil : parseNumbers [] = none := rfl

namespace Uri

theorem numbers_lt (u : Uri) : u.numbers.1 < 2 ^ 64 ∧ u.numbers.2 < 2 ^ 64 := by
  unfold numbers
  split
  · cases h : parseIpn u.ssp with
    | none => norm_num
    | some p => exact parseIpn_lt h
  · cases h : parseImc u.ssp with
    | none => norm_num
    | some p => exact parseNumbers_lt h
  · norm_num

/-- An id of a known scheme has a specific part. -/
theorem ssp_ne_nil {u : Uri} (hv : u.validate = true) (hs : u.scheme?.isSome)
    (hhost : u.ssp = [] → u.host = []) : u.ssp ≠ [] := by
  intro hnil
  have hnone : ([] : List UInt8) ≠ text "none" := by decide
  unfold validate at hv
  rw [hnil, hhost hnil] at hv
  cases hscheme : u.scheme? with
  | none => simp [hscheme] at hs
  | some s => cases s <;> simp [hscheme, hnone, parseIpn, parseImc, parseNumbers_nil] at hv

end Uri

namespace Eid
variable {parse : List UInt8 → Option Uri}

theorem uri?_eq_some {e : Eid} {u : Uri} :
    e.uri? parse = some u ↔ parse e.key = some u ∧ u.validate = true := by
  rw [uri?, Option.filter_eq_some_iff]

/-- What is made from the parts of an id is that id again. -/
theorem uri?_makeEidScheme (hU : IsUri parse) {e : Eid} {u : Uri} (h : e.uri? parse = some u)
    (hs : u.scheme?.isSome) : (makeEidScheme u.scheme u.ssp).uri? parse = some u := by
  obtain ⟨hp, hv⟩ := uri?_eq_some.mp h
  exact uri?_eq_some.mpr ⟨hU.reparse hp hv hs, hv⟩

theorem nodeNum_lt (e : Eid) : e.nodeNum parse < 2 ^ 64 := by
  unfold nodeNum numbers
  cases h : e.uri? parse with
  | none => norm_num
  | some u => exact u.numbers_lt.1

theorem serviceNum_lt (e : Eid) : e.serviceNum parse < 2 ^ 64 := by
  unfold serviceNum numbers
  cases h : e.uri? parse with
  | none => norm_num
  | some u => exact u.numbers_lt.2

theorem isSingleton_eq {e : Eid} {u : Uri} (h : e.uri? parse = some u) :
    e.isSingleton parse = u.isSingleton := by
  obtain ⟨hp, hv⟩ := uri?_eq_some.mp h
  have hfits : u.fits = true := by
    unfold Uri.validate at hv
    exact (Bool.and_eq_true_iff.mp hv).1
  rw [isSingleton, hp, Option.filter_some, if_pos hfits, Option.any_some]

theorem isNull_eq {e : Eid} {u : Uri} (h : e.uri? parse = some u) :
    e.isNull parse = u.isNull := by
  rw [isNull, h, Option.any_some]

end Eid

/-! ## A URI class that keeps every text -/

/-- Scheme, ssp and, behind two slashes, a host: already normal texts are kept as they are. -/
def splitUri (t : List UInt8) : Option Uri :=
  let scheme := t.takeWhile (· ≠ 58)
  let ssp := (t.dropWhile (· ≠ 58)).drop 1
  if scheme = [] || t.dropWhile (· ≠ 58) = [] || t.contains 0 then none
  else if (text "//").isPrefixOf ssp then
    some ⟨scheme, ssp, (ssp.drop 2).takeWhile (· ≠ 47), (ssp.drop 2).dropWhile (· ≠ 47)⟩
  else some ⟨scheme, ssp, [], ssp⟩

theorem splitUri_parts {t : List UInt8} {u : Uri} (h : splitUri t = some u) :
    u.scheme = t.takeWhile (· ≠ 58) ∧ u.ssp = (t.dropWhile (· ≠ 58)).drop 1 ∧ u.scheme ≠ [] ∧
      t.dropWhile (· ≠ 58) ≠ [] ∧ (0 : UInt8) ∉ t ∧ (u.ssp = [] → u.host = []) := by
  unfold splitUri at h
  dsimp only at h
  split_ifs at h with hbad hauth <;> cases h
  · simp only [Bool.or_eq_true, decide_eq_true_eq, List.contains_iff_mem, not_or] at hbad
    refine ⟨rfl, rfl, hbad.1.1, hbad.1.2, hbad.2, fun hnil => ?_⟩
    dsimp only at hnil
    rw [hnil] at hauth
    exact absurd hauth (by decide)
  · simp only [Bool.or_eq_true, decide_eq_true_eq, List.contains_iff_mem, not_or] at hbad
    exact ⟨rfl, rfl, hbad.1.1, hbad.1.2, hbad.2, fun _ => rfl⟩

theorem splitUri_str {t : List UInt8} {u : Uri} (h : splitUri t = some u) : u.str = t := by
  obtain ⟨hscheme, hssp, -, hne, -, -⟩ := splitUri_parts h
  have hhead : t.dropWhile (· ≠ 58) = text ":" ++ (t.dropWhile (· ≠ 58)).drop 1 := by
    have hnot := List.head_dropWhile_not (fun c : UInt8 => c ≠ 58) hne
    simp only [ne_eq, decide_not, Bool.not_eq_false', decide_eq_true_eq] at hnot
    have hcolon : text ":" = [58] := by decide
    rw [hcolon]
    conv_lhs => rw [← List.cons_head_tail hne]
    simp [hnot]
  rw [Uri.str, hscheme, hssp, List.append_assoc, ← hhead, List.takeWhile_append_dropWhile]

theorem splitUri_of_scheme {scheme rest : List UInt8} (hne : scheme ≠ [])
    (hcolon : (58 : UInt8) ∉ scheme) (hzero : (0 : UInt8) ∉ scheme ++ text ":" ++ rest) :
    ∃ u, splitUri (scheme ++ text ":" ++ rest) = some u ∧ u.scheme = scheme ∧ u.ssp = rest := by
  have htext : text ":" = [58] := by decide
  have hall : ∀ c ∈ scheme, decide (c ≠ 58) = true := fun c hc =>
    decide_eq_true fun h => hcolon (h ▸ hc)
  rw [htext, List.append_assoc] at hzero ⊢
  have htake : (scheme ++ ([58] ++ rest)).takeWhile (· ≠ 58) = scheme := by
    rw [List.takeWhile_append_of_pos hall]
    simp
  have hdrop : (scheme ++ ([58] ++ rest)).dropWhile (· ≠ 58) = [58] ++ rest := by
    rw [List.dropWhile_append_of_pos hall]
    simp
  unfold splitUri
  rw [htake, hdrop]
  dsimp only
  rw [if_neg (by simpa [hne] using hzero)]
  split_ifs <;> exact ⟨_, rfl, rfl, rfl⟩

theorem isUri_splitUri : IsUri splitUri where
  reparse h _ _ := by rw [splitUri_str h, h]
  zero_notMem h := by
    rw [splitUri_str h]
    exact (splitUri_parts h).2.2.2.2.1
  scheme_ne_nil h := (splitUri_parts h).2.2.1
  host_eq_nil h := (splitUri_parts h).2.2.2.2.2
  numbers scheme hscheme n m := by
    have hdigits : ∀ k, (0 : UInt8) ∉ decimal k := fun k h =>
      absurd (isDigit_of_mem_decimal h) (by decide)
    have hzero : (0 : UInt8) ∉ text ":" ++ (decimal n ++ text "." ++ decimal m) := by
      simp only [List.mem_append, not_or]
      exact ⟨by decide, ⟨hdigits n, by decide⟩, hdigits m⟩
    have hfacts : scheme ≠ [] ∧ (58 : UInt8) ∉ scheme ∧ (0 : UInt8) ∉ scheme := by
      simp only [List.mem_cons, List.not_mem_nil, or_false] at hscheme
      rcases hscheme with rfl | rfl <;> decide
    refine splitUri_of_scheme hfacts.1 hfacts.2.1 ?_
    rw [List.append_assoc, List.mem_append, not_or]
    exact ⟨hfacts.2.2, hzero⟩

end Dtnme.Naming
