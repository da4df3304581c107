import Dtnme.Naming.Pattern

/-! # The route table

The entries that match an endpoint are collected over all entries. One that has an endpoint in place
of a link leads on to the entries that match that endpoint, up to a limit. What was found is kept in
one vector, where an entry is not put twice.
-/

namespace Dtnme.Routing
open Library Naming

/-- Where an entry leads: to a link, or to the routes of another endpoint, which is not empty. -/
inductive Hop
  | link (l : ℕ)
  | routeTo (eid : Eid) (ne : eid.key ≠ [])
  deriving DecidableEq

/-- An entry; entries are told apart by their addresses. -/
structure RouteEntry where
  address : ℕ
  destPattern : Pattern
  hop : Hop
  priority : ℤ := 0
  deriving DecidableEq

/-- The result vector, and whether a chain was cut off. -/
structure Matches where
  entryVec : List RouteEntry := []
  loop : Bool := false
  deriving DecidableEq

/-- `route_table_` with `max_route_to_chain_`. -/
structure RouteTable where
  names : Names
  routeTable : List RouteEntry
  maxRouteToChain : ℕ := 10

namespace RouteTable

/-- The test of the loop; an id with a wildcard also matches the pattern that is the same text. -/
def selects (t : RouteTable) (eid : Eid) (e : RouteEntry) : Bool :=
  (eid.str t.names).contains 42 && e.destPattern.str t.names = eid.str t.names ||
    e.destPattern.matchEid t.names eid

/-- An entry that matches: the vector and the count after it. `recurse` is the lookup one level
deeper, if there is one. -/
def visit (recurse : Option (Eid → Matches → Matches × ℕ)) (nextHop : Option ℕ) (m : Matches × ℕ)
    (e : RouteEntry) : Matches × ℕ :=
  match e.hop with
  | .routeTo eid _ =>
    match recurse with
    | none => ({ m.1 with loop := true }, m.2)
    | some helper => ((helper eid m.1).1, m.2 + (helper eid m.1).2)
  | .link l =>
    if nextHop.all (· = l) then
      if e ∈ m.1.entryVec then m
      else ({ m.1 with entryVec := m.1.entryVec ++ [e] }, m.2 + 1)
    else m

/-- The loop over the entries that a test selects. -/
def collect (t : RouteTable) (select : RouteEntry → Bool)
    (recurse : Option (Eid → Matches → Matches × ℕ)) (nextHop : Option ℕ) (m : Matches) :
    Matches × ℕ :=
  t.routeTable.foldl (fun m e => if select e then visit recurse nextHop m e else m) (m, 0)

/-- `get_matching_helper` for an endpoint, with so many levels left. -/
def getMatchingHelper (t : RouteTable) (nextHop : Option ℕ) : ℕ → Eid → Matches → Matches × ℕ
  | 0, eid, m => t.collect (t.selects eid) none nextHop m
  | k + 1, eid, m => t.collect (t.selects eid) (some (t.getMatchingHelper nextHop k)) nextHop m

/-- The lookup one level deeper. -/
def deeper (t : RouteTable) (nextHop : Option ℕ) : ℕ → Option (Eid → Matches → Matches × ℕ)
  | 0 => none
  | k + 1 => some (t.getMatchingHelper nextHop k)

/-- `get_matching_helper` for a node number, which is its own code at the first level only. -/
def getMatchingIpnHelper (t : RouteTable) (nextHop : Option ℕ) (k testNodeNum : ℕ) (m : Matches) :
    Matches × ℕ :=
  t.collect (fun e => e.destPattern.matchIpn t.names testNodeNum) (t.deeper nextHop k) nextHop m

def getMatching (t : RouteTable) (eid : Eid) (nextHop : Option ℕ) (m : Matches) : Matches × ℕ :=
  t.getMatchingHelper nextHop t.maxRouteToChain eid m

def getMatchingIpn (t : RouteTable) (testNodeNum : ℕ) (nextHop : Option ℕ) (m : Matches) :
    Matches × ℕ :=
  t.getMatchingIpnHelper nextHop t.maxRouteToChain testNodeNum m

theorem getMatchingHelper_eq (t : RouteTable) (nextHop : Option ℕ) (k : ℕ) (eid : Eid) (m : Matches) :
    t.getMatchingHelper nextHop k eid m = t.collect (t.selects eid) (t.deeper nextHop k) nextHop m := by
  cases k <;> rfl

/-! ## Reachability -/

/-- So many matching entries lead from one endpoint to another. -/
inductive Leads (t : RouteTable) : ℕ → Eid → Eid → Prop
  | refl (eid : Eid) : Leads t 0 eid eid
  | step {k : ℕ} {eid next last : Eid} {e : RouteEntry} {ne : next.key ≠ []} (mem : e ∈ t.routeTable)
      (selects : t.selects eid e = true) (hop : e.hop = .routeTo next ne) (rest : Leads t k next last) :
      Leads t (k + 1) eid last

/-- An entry with a link that passes the filter. -/
def Forwards (nextHop : Option ℕ) (e : RouteEntry) : Prop :=
  ∃ l, e.hop = .link l ∧ nextHop.all (· = l) = true

/-- The entry matches an endpoint to which at most so many entries lead. -/
def Found (t : RouteTable) (nextHop : Option ℕ) (k : ℕ) (eid : Eid) (e : RouteEntry) : Prop :=
  ∃ j ≤ k, ∃ last, t.Leads j eid last ∧ e ∈ t.routeTable ∧ t.selects last e = true ∧
    Forwards nextHop e

/-- After as many steps as are allowed there is one more. -/
def CutOff (t : RouteTable) (k : ℕ) (eid : Eid) : Prop :=
  ∃ last e next, ∃ ne : next.key ≠ [], t.Leads k eid last ∧ e ∈ t.routeTable ∧
    t.selects last e = true ∧ e.hop = .routeTo next ne

/-- What an entry that matches adds, with so many steps left behind it. -/
def Yields (t : RouteTable) (nextHop : Option ℕ) : ℕ → RouteEntry → RouteEntry → Prop
  | 0, e, x => x = e ∧ Forwards nextHop e
  | k + 1, e, x => (x = e ∧ Forwards nextHop e) ∨
      ∃ next, ∃ ne : next.key ≠ [], e.hop = .routeTo next ne ∧ t.Found nextHop k next x

def Cuts (t : RouteTable) : ℕ → RouteEntry → Prop
  | 0, e => ∃ next, ∃ ne : next.key ≠ [], e.hop = .routeTo next ne
  | k + 1, e => ∃ next, ∃ ne : next.key ≠ [], e.hop = .routeTo next ne ∧ t.CutOff k next

variable {t : RouteTable} {nextHop : Option ℕ}

/-- The first step is taken over an entry that matches. -/
theorem found_iff {k : ℕ} {eid : Eid} {x : RouteEntry} :
    t.Found nextHop k eid x ↔
      ∃ e ∈ t.routeTable, t.selects eid e = true ∧ t.Yields nextHop k e x := by
  constructor
  · rintro ⟨j, hj, last, hleads, hx, hsel, hfwd⟩
    cases hleads with
    | refl =>
      refine ⟨x, hx, hsel, ?_⟩
      cases k with
      | zero => exact ⟨rfl, hfwd⟩
      | succ k => exact Or.inl ⟨rfl, hfwd⟩
    | @step j _ next _ e ne mem hsel' hhop rest =>
      obtain ⟨k, rfl⟩ : ∃ i, k = i + 1 := ⟨k - 1, by omega⟩
      exact ⟨e, mem, hsel', Or.inr ⟨next, ne, hhop, j, by omega, last, rest, hx, hsel, hfwd⟩⟩
  · rintro ⟨e, he, hsel, hy⟩
    have hdirect : x = e ∧ Forwards nextHop e → t.Found nextHop k eid x := by
      rintro ⟨rfl, hfwd⟩
      exact ⟨0, Nat.zero_le k, eid, .refl eid, he, hsel, hfwd⟩
    cases k with
    | zero => exact hdirect hy
    | succ k =>
      rcases hy with hy | ⟨next, ne, hhop, j, hj, last, hleads, hx, hsel', hfwd⟩
      · exact hdirect hy
      · exact ⟨j + 1, by omega, last, .step he hsel hhop hleads, hx, hsel', hfwd⟩

theorem cutOff_iff {k : ℕ} {eid : Eid} :
    t.CutOff k eid ↔ ∃ e ∈ t.routeTable, t.selects eid e = true ∧ t.Cuts k e := by
  constructor
  · rintro ⟨last, e, next, ne, hleads, he, hsel, hhop⟩
    cases hleads with
    | refl => exact ⟨e, he, hsel, next, ne, hhop⟩
    | @step j _ mid _ e' ne' mem hsel' hhop' rest =>
      exact ⟨e', mem, hsel', mid, ne', hhop', last, e, next, ne, rest, he, hsel, hhop⟩
  · rintro ⟨e, he, hsel, hcuts⟩
    cases k with
    | zero =>
      obtain ⟨next, ne, hhop⟩ := hcuts
      exact ⟨eid, e, next, ne, .refl eid, he, hsel, hhop⟩
    | succ k =>
      obtain ⟨next, ne, hhop, last, e', next', ne', hleads, he', hsel', hhop'⟩ := hcuts
      exact ⟨last, e', next', ne', .step he hsel hhop hleads, he', hsel', hhop'⟩

/-! ## What a lookup adds -/

/-- From one vector to another exactly these entries are appended, each once, and so many; and the
loop is noted if there is a cut. -/
structure Adds (F : RouteEntry → Prop) (L : Prop) (m : Matches) (r : Matches × ℕ) : Prop where
  count : r.1.entryVec.length = m.entryVec.length + r.2
  old : m.entryVec <+: r.1.entryVec
  nodup : m.entryVec.Nodup → r.1.entryVec.Nodup
  mem : ∀ x, x ∈ r.1.entryVec ↔ x ∈ m.entryVec ∨ F x
  loop : r.1.loop = true ↔ m.loop = true ∨ L

theorem Adds.rfl (m : Matches) : Adds (fun _ => False) False m (m, 0) where
  count := Eq.refl _
  old := List.prefix_refl _
  nodup h := h
  mem := by simp
  loop := by simp

theorem Adds.congr {F G : RouteEntry → Prop} {L K : Prop} {m : Matches} {r : Matches × ℕ}
    (h : Adds F L m r) (hF : ∀ x, F x ↔ G x) (hL : L ↔ K) : Adds G K m r where
  count := h.count
  old := h.old
  nodup := h.nodup
  mem x := by rw [h.mem, hF]
  loop := by rw [h.loop, hL]

theorem Adds.trans {F G : RouteEntry → Prop} {L K : Prop} {m : Matches} {r s : Matches × ℕ}
    (h : Adds F L m r) (h' : Adds G K r.1 s) :
    Adds (fun x => F x ∨ G x) (L ∨ K) m (s.1, r.2 + s.2) where
  count := by
    change s.1.entryVec.length = _
    rw [h'.count, h.count]
    omega
  old := h.old.trans h'.old
  nodup hm := h'.nodup (h.nodup hm)
  mem x := by
    change x ∈ s.1.entryVec ↔ _
    rw [h'.mem, h.mem, or_assoc]
  loop := by
    change s.1.loop = true ↔ _
    rw [h'.loop, h.loop, or_assoc]

/-- An entry that matches adds what it leads to. -/
theorem visit_adds {k : ℕ}
    (ih : ∀ j, k = j + 1 → ∀ eid m, Adds (t.Found nextHop j eid) (t.CutOff j eid) m
      (t.getMatchingHelper nextHop j eid m)) (e : RouteEntry) (m : Matches) :
    Adds (t.Yields nextHop k e) (t.Cuts k e) m (visit (t.deeper nextHop k) nextHop (m, 0) e) := by
  unfold visit
  cases hhop : e.hop with
  | routeTo eid ne =>
    have hno : ¬ Forwards nextHop e := by simp [Forwards, hhop]
    cases k with
    | zero =>
      refine ⟨Eq.refl _, List.prefix_refl _, fun h => h, fun x => ?_, ?_⟩
      · simp [deeper, Yields, hno]
      · simp only [deeper, Cuts, hhop, true_iff]
        exact Or.inr ⟨eid, ne, Eq.refl _⟩
    | succ k =>
      simp only [deeper, Nat.zero_add]
      apply (ih k rfl eid m).congr
      · simp [Yields, hno, hhop, ne]
      · simp [Cuts, hhop, ne]
  | link l =>
    have hcut : ¬ t.Cuts k e := by cases k <;> simp [Cuts, hhop]
    have hyield : ∀ x, t.Yields nextHop k e x ↔ x = e ∧ nextHop.all (· = l) = true := by
      intro x
      cases k <;> simp [Yields, Forwards, hhop]
    simp only
    by_cases hall : nextHop.all (· = l) = true
    · rw [if_pos hall]
      by_cases hmem : e ∈ m.entryVec
      · rw [if_pos hmem]
        refine ⟨Eq.refl _, List.prefix_refl _, fun h => h, fun x => ?_, by simp [hcut]⟩
        rw [hyield]
        exact ⟨Or.inl, fun h => h.elim id (fun h => h.1 ▸ hmem)⟩
      · rw [if_neg hmem]
        refine ⟨by simp, List.prefix_append _ _, fun h => ?_, fun x => ?_, by simp [hcut]⟩
        · rw [List.nodup_append]
          refine ⟨h, List.nodup_singleton e, ?_⟩
          rintro a ha b hb rfl
          exact hmem (List.mem_singleton.mp hb ▸ ha)
        · simp [hyield, hall]
    · rw [if_neg hall]
      exact (Adds.rfl m).congr (fun x => by simp [hyield, hall]) (by simp [hcut])

/-- The count of one entry is added to that of the loop. -/
theorem visit_count (recurse : Option (Eid → Matches → Matches × ℕ)) (m : Matches × ℕ)
    (e : RouteEntry) : visit recurse nextHop m e =
      ((visit recurse nextHop (m.1, 0) e).1, m.2 + (visit recurse nextHop (m.1, 0) e).2) := by
  unfold visit
  cases e.hop with
  | routeTo eid ne => cases recurse <;> simp
  | link l =>
    simp only
    split_ifs <;> simp

/-- The loop over a part of the table. -/
theorem foldl_adds {k : ℕ}
    (h : ∀ e m, Adds (t.Yields nextHop k e) (t.Cuts k e) m
      (visit (t.deeper nextHop k) nextHop (m, 0) e)) (select : RouteEntry → Bool)
    (l : List RouteEntry) {F : RouteEntry → Prop} {L : Prop} {m : Matches} {r : Matches × ℕ} (hr : Adds F L m r) :
    Adds (fun x => F x ∨ ∃ e ∈ l, select e = true ∧ t.Yields nextHop k e x)
      (L ∨ ∃ e ∈ l, select e = true ∧ t.Cuts k e) m
      (l.foldl (fun m e => if select e then visit (t.deeper nextHop k) nextHop m e else m) r) := by
  induction l generalizing F L r with
  | nil => exact hr.congr (by simp) (by simp)
  | cons e l ih =>
    rw [List.foldl_cons]
    by_cases hsel : select e = true
    · rw [if_pos hsel, visit_count]
      apply (ih (hr.trans (h e r.1))).congr
      · simp [hsel, or_assoc]
      · simp [hsel, or_assoc]
    · rw [if_neg hsel]
      apply (ih hr).congr
      · simp [hsel]
      · simp [hsel]

theorem collect_adds {k : ℕ}
    (ih : ∀ j, k = j + 1 → ∀ eid m, Adds (t.Found nextHop j eid) (t.CutOff j eid) m
      (t.getMatchingHelper nextHop j eid m)) (select : RouteEntry → Bool) (m : Matches) :
    Adds (fun x => ∃ e ∈ t.routeTable, select e = true ∧ t.Yields nextHop k e x)
      (∃ e ∈ t.routeTable, select e = true ∧ t.Cuts k e) m
      (t.collect select (t.deeper nextHop k) nextHop m) := by
  apply (foldl_adds (visit_adds ih) select t.routeTable (Adds.rfl m)).congr
  · simp
  · simp

theorem getMatchingHelper_adds (k : ℕ) (eid : Eid) (m : Matches) :
    Adds (t.Found nextHop k eid) (t.CutOff k eid) m (t.getMatchingHelper nextHop k eid m) := by
  induction k generalizing eid m with
  | zero =>
    rw [getMatchingHelper_eq]
    apply (collect_adds (by simp) (t.selects eid) m).congr
    · exact fun x => found_iff.symm
    · exact cutOff_iff.symm
  | succ k ih =>
    have ih' : ∀ j, k + 1 = j + 1 → ∀ eid m, Adds (t.Found nextHop j eid) (t.CutOff j eid) m
        (t.getMatchingHelper nextHop j eid m) := by
      intro j hj
      obtain rfl := Nat.succ.inj hj
      exact ih
    rw [getMatchingHelper_eq]
    apply (collect_adds ih' (t.selects eid) m).congr
    · exact fun x => found_iff.symm
    · exact cutOff_iff.symm

/-- A lookup appends each entry that it finds over at most `maxRouteToChain` others, exactly once, and
no other entry; it counts them, and notes a loop if there is a chain that goes on. -/
theorem getMatching_exact (t : RouteTable) (eid : Eid) (nextHop : Option ℕ) :
    (t.getMatching eid nextHop {}).1.entryVec.Nodup ∧
      (∀ e, e ∈ (t.getMatching eid nextHop {}).1.entryVec ↔
        t.Found nextHop t.maxRouteToChain eid e) ∧
      (t.getMatching eid nextHop {}).2 = (t.getMatching eid nextHop {}).1.entryVec.length ∧
      ((t.getMatching eid nextHop {}).1.loop = true ↔ t.CutOff t.maxRouteToChain eid) := by
  have h : Adds (t.Found nextHop t.maxRouteToChain eid) (t.CutOff t.maxRouteToChain eid) {}
      (t.getMatchingHelper nextHop t.maxRouteToChain eid {}) :=
    getMatchingHelper_adds t.maxRouteToChain eid {}
  unfold getMatching
  refine ⟨h.nodup List.nodup_nil, fun e => ?_, ?_, ?_⟩
  · simpa using h.mem e
  · simpa using h.count.symm
  · simpa using h.loop

/-! ## All services of a node -/

theorem getMatchingIpn_mem (t : RouteTable) (node : ℕ) (nextHop : Option ℕ) (x : RouteEntry) :
    x ∈ (t.getMatchingIpn node nextHop {}).1.entryVec ↔
      ∃ e ∈ t.routeTable, e.destPattern.matchIpn t.names node = true ∧
        t.Yields nextHop t.maxRouteToChain e x := by
  have hdeeper : ∀ j, t.maxRouteToChain = j + 1 → ∀ eid m,
      Adds (t.Found nextHop j eid) (t.CutOff j eid) m (t.getMatchingHelper nextHop j eid m) :=
    fun j _ => getMatchingHelper_adds j
  have h := collect_adds hdeeper (fun e => e.destPattern.matchIpn t.names node) {}
  unfold getMatchingIpn getMatchingIpnHelper
  simpa using h.mem x

theorem getMatching_mem (t : RouteTable) (eid : Eid) (nextHop : Option ℕ) (x : RouteEntry) :
    x ∈ (t.getMatching eid nextHop {}).1.entryVec ↔
      ∃ e ∈ t.routeTable, t.selects eid e = true ∧ t.Yields nextHop t.maxRouteToChain e x := by
  have h : Adds (t.Found nextHop t.maxRouteToChain eid) (t.CutOff t.maxRouteToChain eid) {}
      (t.getMatchingHelper nextHop t.maxRouteToChain eid {}) :=
    getMatchingHelper_adds t.maxRouteToChain eid {}
  unfold getMatching
  rw [← found_iff]
  simpa using h.mem x

/-- The entries for a node are those for all of its services. -/
def AgreesOnNode (t : RouteTable) (node : ℕ) (nextHop : Option ℕ) : Prop :=
  ∀ x, x ∈ (t.getMatchingIpn node nextHop {}).1.entryVec ↔
    ∃ service < 2 ^ 64, x ∈ (t.getMatching (makeEidIpn node service) nextHop {}).1.entryVec

/-- A pattern of another scheme than ipn that matches some service of a node. -/
def Stray (names : Names) (node : ℕ) (p : Pattern) : Prop :=
  p.scheme? names ≠ some .ipn ∧ ∃ service < 2 ^ 64, p.matchEid names (makeEidIpn node service) = true

/-- It is the wildcard or a scheme that is not known. -/
theorem Stray.scheme {names : Names} (hU : IsUri names.parse) {node : ℕ} (hn : node < 2 ^ 64)
    {p : Pattern} (h : Stray names node p) :
    p.scheme? names = some .wildcard ∨ p.scheme? names = none := by
  obtain ⟨hscheme, service, hs, hmatch⟩ := h
  obtain ⟨u, hu, huscheme, -⟩ := uri?_makeEidIpn hU hn hs
  unfold Pattern.matchEid at hmatch
  cases hp : p.uri? names with
  | none => simp [hp] at hmatch
  | some q =>
    have hq : p.scheme? names = q.scheme? := by simp [Pattern.scheme?, hp]
    rw [hq] at hscheme ⊢
    simp only [hp, hu, Uri.matchUri] at hmatch
    cases hqs : q.scheme? with
    | none => exact Or.inr rfl
    | some s => cases s <;> simp [hqs, huscheme] at hmatch hscheme ⊢

/-- The id of a service has no wildcard in its text. -/
theorem selects_makeEidIpn (hU : IsUri t.names.parse) (node service : ℕ) (e : RouteEntry) :
    t.selects (makeEidIpn node service) e =
      e.destPattern.matchEid t.names (makeEidIpn node service) := by
  have hdigits : ∀ k, (42 : UInt8) ∉ decimal k := fun k h =>
    absurd (isDigit_of_mem_decimal h) (by decide)
  obtain ⟨u, hparse, hscheme, hssp⟩ := hU.numbers (text "ipn") (by simp) node service
  have hkey : text "ipn:" = text "ipn" ++ text ":" := by decide
  have hstr : (42 : UInt8) ∉ (makeEidIpn node service).str t.names := by
    have hp : t.names.parse (makeEidIpn node service).key = some u := by
      rw [← hparse]
      simp [makeEidIpn, hkey]
    rw [Eid.str, hp, Option.map_some, Option.getD_some, Uri.str, hscheme, hssp]
    simp only [List.mem_append, not_or]
    exact ⟨⟨by decide, by decide⟩, ⟨hdigits node, by decide⟩, hdigits service⟩
  simp [selects, hstr]

/-- Some service of a node is selected by the ipn patterns of the node, and by strays. -/
theorem exists_selects_iff (hU : IsUri t.names.parse) {node : ℕ} (hn : node < 2 ^ 64)
    (e : RouteEntry) :
    (∃ service < 2 ^ 64, t.selects (makeEidIpn node service) e = true) ↔
      e.destPattern.matchIpn t.names node = true ∨ Stray t.names node e.destPattern := by
  simp only [selects_makeEidIpn hU]
  unfold Stray Pattern.matchIpn Pattern.scheme?
  cases hp : e.destPattern.uri? t.names with
  | none => simp [Pattern.matchEid, hp]
  | some p =>
    simp only [Option.any_some, Option.bind_some]
    by_cases hscheme : p.scheme? = some .ipn
    · have hnumbers : ∀ service < 2 ^ 64,
          (e.destPattern.matchEid t.names (makeEidIpn node service) = true ↔
            p.numbersMatch (node, service) = true) := by
        intro service hs
        obtain ⟨u, hu, huscheme, hunumbers⟩ := uri?_makeEidIpn hU hn hs
        simp [Pattern.matchEid, hp, hu, Uri.matchUri, hscheme, huscheme, hunumbers]
      have hsome : (∃ service < 2 ^ 64,
          e.destPattern.matchEid t.names (makeEidIpn node service) = true) ↔
            ∃ service < 2 ^ 64, p.numbersMatch (node, service) = true :=
        exists_congr fun service => and_congr_right (hnumbers service)
      rw [hsome, p.exists_numbersMatch_iff node]
      simp [Uri.matchIpn, hscheme]
    · simp [Uri.matchIpn, hscheme]

/-- The two lookups agree on a node as far as what strays lead to is found by its ipn patterns too. -/
theorem getMatchingIpn_agrees_iff (t : RouteTable) (node : ℕ) (nextHop : Option ℕ)
    (hU : IsUri t.names.parse) (hn : node < 2 ^ 64) :
    t.AgreesOnNode node nextHop ↔
      ∀ e ∈ t.routeTable, Stray t.names node e.destPattern → ∀ x,
        t.Yields nextHop t.maxRouteToChain e x →
          ∃ e' ∈ t.routeTable, e'.destPattern.matchIpn t.names node = true ∧
            t.Yields nextHop t.maxRouteToChain e' x := by
  have hunicast : ∀ x, (∃ service < 2 ^ 64,
      x ∈ (t.getMatching (makeEidIpn node service) nextHop {}).1.entryVec) ↔
        ∃ e ∈ t.routeTable, (e.destPattern.matchIpn t.names node = true ∨
          Stray t.names node e.destPattern) ∧ t.Yields nextHop t.maxRouteToChain e x := by
    intro x
    constructor
    · rintro ⟨service, hs, hx⟩
      obtain ⟨e, he, hsel, hy⟩ := (getMatching_mem t _ nextHop x).mp hx
      exact ⟨e, he, (exists_selects_iff hU hn e).mp ⟨service, hs, hsel⟩, hy⟩
    · rintro ⟨e, he, hsome, hy⟩
      obtain ⟨service, hs, hsel⟩ := (exists_selects_iff hU hn e).mpr hsome
      exact ⟨service, hs, (getMatching_mem t _ nextHop x).mpr ⟨e, he, hsel, hy⟩⟩
  unfold AgreesOnNode
  simp only [getMatchingIpn_mem, hunicast]
  constructor
  · intro h e he hstray x hy
    exact (h x).mpr ⟨e, he, Or.inr hstray, hy⟩
  · intro h x
    constructor
    · rintro ⟨e, he, hipn, hy⟩
      exact ⟨e, he, Or.inl hipn, hy⟩
    · rintro ⟨e, he, hipn | hstray, hy⟩
      · exact ⟨e, he, hipn, hy⟩
      · exact h e he hstray x hy

/-- A table with a route for all services of a node, and one for everything. -/
def wildTable : RouteTable where
  names := { parse := splitUri, parsePattern := splitUri, portNum := fun _ => 0 }
  routeTable := [⟨1, ⟨text "ipn:5.*"⟩, .link 1, 0⟩, ⟨2, ⟨text "*:*"⟩, .link 2, 0⟩]

/-- The route for everything is not found for the node. -/
theorem getMatchingIpn_agrees_iff_wild : wildTable.AgreesOnNode 5 none ↔
    ∀ e ∈ wildTable.routeTable, Stray wildTable.names 5 e.destPattern → ∀ x,
      wildTable.Yields none wildTable.maxRouteToChain e x →
        ∃ e' ∈ wildTable.routeTable, e'.destPattern.matchIpn wildTable.names 5 = true ∧
          wildTable.Yields none wildTable.maxRouteToChain e' x :=
  getMatchingIpn_agrees_iff wildTable 5 none isUri_splitUri (by norm_num)

theorem getMatchingIpn_not_agrees :
    ¬ ∀ (t : RouteTable) (node : ℕ) (nextHop : Option ℕ), IsUri t.names.parse → node < 2 ^ 64 →
      (∀ e ∈ t.routeTable, (e.destPattern.uri? t.names).isSome) → t.AgreesOnNode node nextHop := by
  intro h
  have hvalid : ∀ e ∈ wildTable.routeTable, (e.destPattern.uri? wildTable.names).isSome := by
    decide +kernel
  have hfound : (⟨2, ⟨text "*:*"⟩, .link 2, 0⟩ : RouteEntry) ∈
      (wildTable.getMatching (makeEidIpn 5 1) none {}).1.entryVec := by decide +kernel
  have hmissing : (⟨2, ⟨text "*:*"⟩, .link 2, 0⟩ : RouteEntry) ∉
      (wildTable.getMatchingIpn 5 none {}).1.entryVec := by decide +kernel
  exact hmissing ((h wildTable 5 none isUri_splitUri (by norm_num) hvalid _).mpr
    ⟨1, by norm_num, hfound⟩)

end RouteTable

end Dtnme.Routing
