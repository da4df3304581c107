import Dtnme.Naming.IpnText

/-! # Endpoint patterns

A pattern is a URI that was not validated, and its scheme decides which ids it matches. Numbers are
compared, the parts of a dtn URI are globbed, and a scheme that is not known is globbed as a text. A
router that has only a node number asks for ipn patterns of that node.
-/

namespace Dtnme.Naming
open Library

/-! ## Globbing -/

/-- The rest of a pattern and the rest of the text that it is to match. -/
structure GlobState where
  pat : List UInt8
  toMatch : List UInt8
  deriving DecidableEq, Repr

namespace GlobState

/-- `STACK_SIZE`. -/
def stackSize : ℕ := 32

/-- The first character, or the zero at the end. -/
def first (s : List UInt8) : UInt8 := s.headD 0

/-- What becomes of a state, and the state that is added where a `*` can end. -/
def advance (s : GlobState) : GlobState × Option GlobState :=
  if first s.pat = 42 then
    (⟨s.pat, s.toMatch.tail⟩,
      if first s.pat.tail = first s.toMatch then some ⟨s.pat.tail, s.toMatch⟩ else none)
  else if first s.pat = first s.toMatch then (⟨s.pat.tail, s.toMatch.tail⟩, none)
  else (⟨[], text "NO_MATCH"⟩, none)

def isMatch (s : GlobState) : Bool :=
  (s.pat = [] && s.toMatch = []) || (s.pat = [42] && s.toMatch = [])

def isLive (s : GlobState) : Bool := s.pat ≠ [] && s.toMatch ≠ []

/-- The states after one more character; none if there are too many. -/
def round (stk : List GlobState) : Option (List GlobState) :=
  if stackSize < stk.length + (stk.filterMap (fun s => s.advance.2)).length then none
  else some (stk.map (fun s => s.advance.1) ++ stk.filterMap (fun s => s.advance.2))

/-- In every round each state has less left of its pattern or of its text. -/
def search : ℕ → List GlobState → Bool
  | 0, _ => false
  | fuel + 1, stk =>
    match round stk with
    | none => false
    | some stk => stk.any isMatch || search fuel (stk.filter isLive)

end GlobState

/-- `Glob::fixed_glob`. -/
def fixedGlob (pat str : List UInt8) : Bool :=
  (pat = [] && str = []) || GlobState.search (pat.length + str.length + 1) [⟨pat, str⟩]

/-! ## Patterns -/

/-- The URI class for ids and for patterns, the port of a URI, and `glob_unknown_schemes_`. -/
structure Names where
  parse : List UInt8 → Option Uri
  parsePattern : List UInt8 → Option Uri
  portNum : Uri → ℤ
  globUnknownSchemes : Bool := true

/-- `c_str` of an id. -/
def Eid.str (names : Names) (e : Eid) : List UInt8 := ((names.parse e.key).map Uri.str).getD e.key

/-- Both numbers are wildcards. -/
def isWildSsp (ssp : List UInt8) : Bool := ssp = text "*" || ssp = text "*.*"

/-- The service behind a node is a wildcard. -/
def isServiceWildSsp (ssp : List UInt8) : Bool :=
  let dot := ssp.findIdx (· = 46)
  dot ≠ 0 && dot ≠ ssp.length && (strtoull ssp).2 = dot && ssp.drop (dot + 1) = text "*"

/-- The numbers of a pattern: what was read stays when the rest is not a number. -/
def patternNumbers (ssp : List UInt8) : ℕ × ℕ :=
  let dot := ssp.findIdx (· = 46)
  if dot = 0 || dot = ssp.length then (0, 0)
  else if (strtoull ssp).2 ≠ dot then ((strtoull ssp).1, 0)
  else ((strtoull ssp).1, (strtoull (ssp.drop (dot + 1))).1)

/-- The check of a pattern with numbers. -/
def validateNumberPattern (ssp : List UInt8) : Bool :=
  isWildSsp ssp || isServiceWildSsp ssp || (parseNumbers ssp).isSome

/-- `EndpointIDPattern::validate`. -/
def Uri.validatePattern (u : Uri) : Bool :=
  u.fits &&
    match u.scheme? with
    | some .dtn => u.host ≠ [] || u.ssp = text "none"
    | some .ipn => validateNumberPattern u.ssp
    | some .imc => validateNumberPattern u.ssp
    | some .wildcard => u.ssp = text "*"
    | none => true

/-- `EndpointIDPattern`. -/
structure Pattern where
  key : List UInt8
  deriving DecidableEq, Repr

namespace Pattern
variable (names : Names)

def uri? (p : Pattern) : Option Uri := (names.parsePattern p.key).filter Uri.validatePattern

def str (p : Pattern) : List UInt8 := ((names.parsePattern p.key).map Uri.str).getD p.key

def scheme? (p : Pattern) : Option Scheme := (p.uri? names).bind Uri.scheme?

end Pattern

namespace Uri

/-- `IPNScheme::match` and `IMCScheme::match`, for an id of the same scheme. -/
def numbersMatch (p : Uri) (numbers : ℕ × ℕ) : Bool :=
  if isWildSsp p.ssp then true
  else if (patternNumbers p.ssp).1 ≠ numbers.1 then false
  else if isServiceWildSsp p.ssp then true
  else (patternNumbers p.ssp).2 = numbers.2

/-- A path that ends in `/*` also matches what it stands under. -/
def globPath (p : Uri) : List UInt8 :=
  if (text "/*").isSuffixOf p.path then p.path.take (p.path.length - 2) ++ text "*" else p.path

/-- `DTNScheme::match`, for an id of the same scheme. -/
def dtnMatch (portNum : Uri → ℤ) (p u : Uri) : Bool :=
  if p.ssp = text "none" || u.ssp = text "none" then false
  else if p.host = text "*" && p.path = [] then true
  else if !(fixedGlob p.host u.host || fixedGlob u.host p.host) then false
  else if portNum p ≠ portNum u then false
  else fixedGlob p.globPath u.path || fixedGlob u.path p.globPath

/-- `EndpointIDPattern::match` of valid URIs. -/
def matchUri (names : Names) (p u : Uri) : Bool :=
  match p.scheme? with
  | some .dtn => u.scheme? = some .dtn && dtnMatch names.portNum p u
  | some .ipn => u.scheme? = some .ipn && p.numbersMatch u.numbers
  | some .imc => u.scheme? = some .imc && p.numbersMatch u.numbers
  | some .wildcard => true
  | none => if names.globUnknownSchemes then fixedGlob p.str u.str else p.str = u.str

/-- `EndpointIDPattern::match_ipn` of a valid pattern. -/
def matchIpn (p : Uri) (testNodeNum : ℕ) : Bool :=
  p.scheme? = some .ipn && (isWildSsp p.ssp || (patternNumbers p.ssp).1 = testNodeNum)

end Uri

namespace Pattern
variable (names : Names)

/-- `EndpointIDPattern::match`; a pattern or an id that is not valid does not match. -/
def matchEid (p : Pattern) (e : Eid) : Bool :=
  match p.uri? names, e.uri? names.parse with
  | some p, some u => p.matchUri names u
  | _, _ => false

def matchIpn (p : Pattern) (testNodeNum : ℕ) : Bool :=
  (p.uri? names).any (fun p => p.matchIpn testNodeNum)

end Pattern

-- a wildcard at the end of a path takes the slash before it
example : fixedGlob (text "hel*lo*world") (text "hello there world") = true := by decide +kernel

/-! ## Numbers of one node -/

theorem patternNumbers_lt (ssp : List UInt8) :
    (patternNumbers ssp).1 < 2 ^ 64 ∧ (patternNumbers ssp).2 < 2 ^ 64 := by
  unfold patternNumbers
  dsimp only
  split_ifs
  · norm_num
  · exact ⟨strtoull_lt _, by norm_num⟩
  · exact ⟨strtoull_lt _, strtoull_lt _⟩

/-- A pattern with numbers matches some service of a node if the nodes agree. -/
theorem Uri.exists_numbersMatch_iff (p : Uri) (node : ℕ) :
    (∃ service < 2 ^ 64, p.numbersMatch (node, service) = true) ↔
      (isWildSsp p.ssp || (patternNumbers p.ssp).1 = node) = true := by
  have hlt := (patternNumbers_lt p.ssp).2
  unfold numbersMatch
  by_cases hwild : isWildSsp p.ssp = true
  · simp only [hwild, if_true, Bool.true_or, and_true, iff_true]
    exact ⟨0, by norm_num⟩
  · by_cases hnode : (patternNumbers p.ssp).1 = node
    · simp only [hwild, hnode, decide_true, Bool.or_true, iff_true]
      exact ⟨_, hlt, by simp⟩
    · simp [hwild, hnode]

variable {names : Names}

/-- The id of a service of a node. -/
theorem uri?_makeEidIpn (hU : IsUri names.parse) {node service : ℕ} (hn : node < 2 ^ 64)
    (hs : service < 2 ^ 64) : ∃ u, (makeEidIpn node service).uri? names.parse = some u ∧
      u.scheme? = some .ipn ∧ u.numbers = (node, service) := by
  obtain ⟨u, hparse, hscheme, hssp⟩ := hU.numbers (text "ipn") (by simp) node service
  have hlookup : u.scheme? = some .ipn := by
    rw [Uri.scheme?, hscheme]
    decide
  have hnumbers : parseIpn u.ssp = some (node, service) := by
    rw [hssp]
    exact parseIpn_formatIpn hn hs
  have hfits : u.fits = true := by
    have hnode := length_decimal_le (hn.trans (by norm_num : 2 ^ 64 < 10 ^ 20)) (by norm_num)
    have hservice := length_decimal_le (hs.trans (by norm_num : 2 ^ 64 < 10 ^ 20)) (by norm_num)
    have hdot : (text ".").length = 1 := by decide
    have hipn : (text "ipn").length = 3 := by decide
    simp only [Uri.fits, hscheme, hssp, maxPartLength, List.length_append, Bool.and_eq_true,
      decide_eq_true_eq]
    omega
  refine ⟨u, Eid.uri?_eq_some.mpr ⟨?_, ?_⟩, hlookup, ?_⟩
  · have hkey : text "ipn:" = text "ipn" ++ text ":" := by decide
    rw [← hparse]
    simp [makeEidIpn, hkey]
  · simp [Uri.validate, hfits, hlookup, hnumbers]
  · simp [Uri.numbers, hlookup, hnumbers]

end Dtnme.Naming
