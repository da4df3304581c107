import Dtnme.Library.Decimal
import Dtnme.Bundling.FragmentSafety

/-! # The keys of the fragment table

A key is the creation time, the sequence number and the texts of source and destination one behind
the other. The first three ends can be told apart, but not the end of the source, so bundles of which
one's source is the other's with the front of its destination behind it share their state.
-/

namespace Dtnme.Bundling
open Library

/-! ## Endpoint texts -/

/-- `URI::validate_scheme_name`. -/
def validateSchemeName : List Char → Bool
  | [] => false
  | c :: l => c.isAlpha && l.all fun c => c.isAlphanum || c == '+' || c == '-' || c == '.'

/-- A text with a scheme and a specific part of the lengths that `EndpointID::validate` admits. -/
def IsEid (t : String) : Prop :=
  ∃ scheme ssp, t.toList = scheme ++ ':' :: ssp ∧ validateSchemeName scheme = true ∧
    scheme.length ≤ 1023 ∧ ssp.length ≤ 1023

/-- Source and destination are texts of endpoints. -/
def Bundle.HasEids (b : Bundle) : Prop := IsEid b.source ∧ IsEid b.dest

theorem IsEid.head_not_digit {t : String} (h : IsEid t) (rest : List Char) :
    ∀ c ∈ (t.toList ++ rest).head?, c.isDigit = false := by
  obtain ⟨scheme, ssp, ht, hscheme, -, -⟩ := h
  cases scheme with
  | nil => simp [validateSchemeName] at hscheme
  | cons d l =>
    intro c hc
    simp only [ht, List.cons_append, List.head?_cons, Option.mem_some_iff] at hc
    subst hc
    have halpha : d.isAlpha = true := (Bool.and_eq_true_iff.mp hscheme).1
    simp only [Char.isAlpha, Char.isUpper, Char.isLower, Bool.or_eq_true, Bool.and_eq_true,
      decide_eq_true_eq, ge_iff_le, UInt32.le_iff_toNat_le] at halpha
    simp only [Char.isDigit, Bool.and_eq_false_iff, decide_eq_false_iff_not, ge_iff_le,
      UInt32.le_iff_toNat_le]
    have hnine : '9'.val.toNat = 57 := rfl
    have hupper : 'A'.val.toNat = 65 := rfl
    have hlower : 'a'.val.toNat = 97 := rfl
    omega

/-! ## Keys -/

/-- What tells bundles apart. -/
def Bundle.identity (b : Bundle) : String × String × ℕ × ℕ :=
  (b.source, b.dest, b.secsOrMillisecs, b.seqno)

/-- The front of `f`'s destination is at the end of `g`'s source. -/
def Bundle.Shifted (f g : Bundle) : Prop :=
  f.secsOrMillisecs = g.secsOrMillisecs ∧ f.seqno = g.seqno ∧
    ∃ w, w ≠ "" ∧ g.source = f.source ++ w ∧ f.dest = w ++ g.dest

theorem toList_hashKey (b : Bundle) : b.hashKey.toList =
    Nat.toDigits 10 b.secsOrMillisecs ++ '.' ::
      (Nat.toDigits 10 b.seqno ++ (b.source.toList ++ b.dest.toList)) := by
  simp [Bundle.hashKey]

theorem toDigits_inj {m n : ℕ} (h : Nat.toDigits 10 m = Nat.toDigits 10 n) : m = n := by
  rw [← Nat.ofDigitChars_ten_toDigits (n := m), h, Nat.ofDigitChars_ten_toDigits]

theorem hashKey_eq_iff {f g : Bundle} (hf : IsEid f.source) (hg : IsEid g.source) :
    f.hashKey = g.hashKey ↔ f.secsOrMillisecs = g.secsOrMillisecs ∧ f.seqno = g.seqno ∧
      f.source.toList ++ f.dest.toList = g.source.toList ++ g.dest.toList := by
  have hdigits : ∀ n : ℕ, ∀ c ∈ Nat.toDigits 10 n, c.isDigit = true := fun n c hc =>
    Nat.isDigit_of_mem_toDigits (by decide) (by decide) hc
  have hdot : ∀ l : List Char, ∀ c ∈ ('.' :: l).head?, c.isDigit = false := by
    rintro l c hc
    obtain rfl := Option.some.inj hc
    decide
  rw [← String.toList_inj, toList_hashKey, toList_hashKey]
  constructor
  · intro h
    obtain ⟨hsecs, h⟩ := append_inj_of_span (hdigits _) (hdot _) (hdigits _) (hdot _) h
    obtain ⟨hseqno, h⟩ := append_inj_of_span (hdigits _) (hf.head_not_digit _) (hdigits _)
      (hg.head_not_digit _) (List.cons.inj h).2
    exact ⟨toDigits_inj hsecs, toDigits_inj hseqno, h⟩
  · rintro ⟨hsecs, hseqno, h⟩
    rw [hsecs, hseqno, h]

/-- Keys tell two bundles apart unless a piece of text moves from a source to a destination. -/
theorem hashKey_injective_iff {f g : Bundle} (hf : IsEid f.source) (hg : IsEid g.source) :
    (f.hashKey = g.hashKey ↔ f.identity = g.identity) ↔ ¬ f.Shifted g ∧ ¬ g.Shifted f := by
  have hsame : f.identity = g.identity → f.hashKey = g.hashKey := by
    intro h
    simp only [Bundle.identity, Prod.mk.injEq] at h
    simp [Bundle.hashKey, h]
  have happend : ∀ s t w : String, t = s ++ w ↔ t.toList = s.toList ++ w.toList := fun s t w => by
    rw [← String.toList_inj, String.toList_append]
  constructor
  · intro h
    have hkey : ∀ a b : Bundle, IsEid a.source → IsEid b.source → a.Shifted b →
        a.hashKey = b.hashKey ∧ a.identity ≠ b.identity := by
      rintro a b ha hb ⟨hsecs, hseqno, w, hw, hsource, hdest⟩
      refine ⟨(hashKey_eq_iff ha hb).mpr ⟨hsecs, hseqno, ?_⟩, fun hid => hw ?_⟩
      · simp [hsource, hdest]
      · simp only [Bundle.identity, Prod.mk.injEq] at hid
        rw [hid.1] at hsource
        exact String.append_eq_left_iff.mp hsource.symm
    constructor
    · intro hshift
      obtain ⟨heq, hne⟩ := hkey f g hf hg hshift
      exact hne (h.mp heq)
    · intro hshift
      obtain ⟨heq, hne⟩ := hkey g f hg hf hshift
      exact hne (h.mp heq.symm).symm
  · rintro ⟨hfg, hgf⟩
    refine ⟨fun heq => ?_, hsame⟩
    obtain ⟨hsecs, hseqno, htext⟩ := (hashKey_eq_iff hf hg).mp heq
    rcases List.append_eq_append_iff.mp htext with ⟨w, hsource, hdest⟩ | ⟨w, hsource, hdest⟩
    · by_cases hw : w = []
      · simp only [hw, List.append_nil, List.nil_append, String.toList_inj] at hsource hdest
        simp [Bundle.identity, hsecs, hseqno, hsource, hdest]
      · refine absurd ⟨hsecs, hseqno, String.ofList w, by simpa using hw, ?_, ?_⟩ hfg
        · simpa [happend] using hsource
        · simpa [happend] using hdest
    · by_cases hw : w = []
      · simp only [hw, List.append_nil, List.nil_append, String.toList_inj] at hsource hdest
        simp [Bundle.identity, hsecs, hseqno, hsource, hdest]
      · refine absurd ⟨hsecs.symm, hseqno.symm, String.ofList w, by simpa using hw, ?_, ?_⟩ hgf
        · simpa [happend] using hsource
        · simpa [happend] using hdest

/-! ## Reassembly -/

/-- `FragmentManager::delete_fragment`, next to the bytes. -/
def FragmentManager.deleteFragment (m : FragmentManager) (fragment : Bundle) :
    Except Fault FragmentManager :=
  if fragment.isFragment then
    match m.fragmentTable.find? fragment.hashKey with
    | none => .ok m
    | some state =>
      if state.fragments.any (·.bundleid == fragment.bundleid) then
        let fragments := state.fragments.eraseP (·.bundleid == fragment.bundleid)
        if fragments.isEmpty then
          .ok { m with fragmentTable := m.fragmentTable.erase fragment.hashKey }
        else .ok { m with fragmentTable :=
          m.fragmentTable.insert fragment.hashKey { state with fragments } }
      else .ok m
  else .error .assertFailed

def FragmentManager.step (m : FragmentManager) : FragmentEvent → Except Fault FragmentManager
  | .process f => processForReassembly m f
  | .delete f => m.deleteFragment f

/-- Every state was made for a bundle whose fragment was processed, and stands under its key. -/
def FragmentManager.KeyedBy (m : FragmentManager) (past : List FragmentEvent) : Prop :=
  ∀ k s, m.fragmentTable.find? k = some s →
    ∃ f, FragmentEvent.process f ∈ past ∧ f.hashKey = k ∧ s.bundle.identity = f.identity

theorem take_identity {s t : FragmentState} {f : Bundle} (h : s.take f = .ok t) :
    t.bundle.identity = s.bundle.identity := by
  unfold FragmentState.take at h
  cases hw : writeData s.bundle.payload f.payload 0 f.payload.length f.fragOffset with
  | error e => simp [hw, bind, Except.bind] at h
  | ok payload =>
    simp only [hw, bind, Except.bind] at h
    obtain rfl := Except.ok.inj h
    rfl

namespace FragmentManager

theorem KeyedBy.mono {m : FragmentManager} {past : List FragmentEvent} (h : m.KeyedBy past)
    (e : FragmentEvent) : m.KeyedBy (past ++ [e]) := by
  intro k s hs
  obtain ⟨f, hf, hkey, hid⟩ := h k s hs
  exact ⟨f, List.mem_append_left _ hf, hkey, hid⟩

/-- The state that a fragment goes to is of a processed fragment with its key, or of itself. -/
theorem KeyedBy.stateFor {m : FragmentManager} {past : List FragmentEvent} (h : m.KeyedBy past)
    (f : Bundle) : (m.stateFor f).bundle.identity = f.identity ∨
      ∃ g, FragmentEvent.process g ∈ past ∧ g.hashKey = f.hashKey ∧
        (m.stateFor f).bundle.identity = g.identity := by
  unfold FragmentManager.stateFor
  cases hs : m.fragmentTable.find? f.hashKey with
  | none => exact Or.inl rfl
  | some s => exact Or.inr (h _ s hs)

theorem KeyedBy.process {m m' : FragmentManager} {past : List FragmentEvent} {f : Bundle}
    (h : m.KeyedBy past) (hstep : processForReassembly m f = .ok m') :
    m'.KeyedBy (past ++ [.process f]) := by
  unfold processForReassembly at hstep
  split_ifs at hstep with hfrag
  cases ht : (m.stateFor f).take f with
  | error e => simp [ht, bind, Except.bind] at hstep
  | ok t =>
    cases hc : t.checkCompleted with
    | error e => simp [ht, hc, bind, Except.bind] at hstep
    | ok completed =>
      simp only [ht, hc, bind, Except.bind] at hstep
      have hid := take_identity ht
      split_ifs at hstep with hdone
      · obtain rfl := Except.ok.inj hstep
        intro k s hs
        simp only [OrdMap.find?_erase] at hs
        split_ifs at hs with hk
        exact h.mono _ k s hs
      · obtain rfl := Except.ok.inj hstep
        intro k s hs
        simp only [OrdMap.find?_insert] at hs
        split_ifs at hs with hk
        · obtain rfl := Option.some.inj hs
          rcases h.stateFor f with hown | ⟨g, hg, hkey, hgid⟩
          · exact ⟨f, by simp, hk.symm, hid.trans hown⟩
          · exact ⟨g, List.mem_append_left _ hg, hkey.trans hk.symm, hid.trans hgid⟩
        · exact h.mono _ k s hs

theorem KeyedBy.delete {m m' : FragmentManager} {past : List FragmentEvent} {f : Bundle}
    (h : m.KeyedBy past) (hstep : m.deleteFragment f = .ok m') :
    m'.KeyedBy (past ++ [.delete f]) := by
  unfold FragmentManager.deleteFragment at hstep
  split_ifs at hstep with hfrag
  cases hs : m.fragmentTable.find? f.hashKey with
  | none =>
    simp only [hs] at hstep
    obtain rfl := Except.ok.inj hstep
    exact h.mono _
  | some state =>
    simp only [hs] at hstep
    split_ifs at hstep with hany hempty
    · obtain rfl := Except.ok.inj hstep
      intro k s hs'
      simp only [OrdMap.find?_erase] at hs'
      split_ifs at hs' with hk
      exact h.mono _ k s hs'
    · obtain rfl := Except.ok.inj hstep
      intro k s hs'
      simp only [OrdMap.find?_insert] at hs'
      split_ifs at hs' with hk
      · obtain rfl := Option.some.inj hs'
        rw [hk]
        exact h.mono _ _ state hs
      · exact h.mono _ k s hs'
    · obtain rfl := Except.ok.inj hstep
      exact h.mono _

theorem KeyedBy.run {m : FragmentManager} {events : List FragmentEvent}
    (h : run FragmentManager.step {} events = .ok m) : m.KeyedBy events := by
  refine run_ok_invariant (fun m past => KeyedBy m past) ?_ (fun k s hs => by simp at hs) h
  intro m past e m' _ hm hstep
  cases e with
  | process f => exact hm.process hstep
  | delete f => exact hm.delete hstep

end FragmentManager

/-- Keys tell bundles apart exactly as far as no text can move between source and destination, and a
run whose fragments are all of that kind never puts one into another bundle's state. -/
theorem hashKey_unmixed (f g : Bundle) (hf : f.HasEids) (hg : g.HasEids)
    (events : List FragmentEvent) :
    ((f.hashKey = g.hashKey ↔ f.identity = g.identity) ↔ ¬ f.Shifted g ∧ ¬ g.Shifted f) ∧
    ((∀ e ∈ events, e.fragment.HasEids) →
      (∀ e ∈ events, ∀ d ∈ events, ¬ e.fragment.Shifted d.fragment) →
      ∀ (i : ℕ) (f : Bundle) (m : FragmentManager), events[i]? = some (.process f) →
        run FragmentManager.step {} (events.take i) = .ok m →
        (m.stateFor f).bundle.identity = f.identity) := by
  constructor
  · exact hashKey_injective_iff hf.1 hg.1
  · clear hf hg f g
    intro heids hshift i f m hi hrun
    have hf : FragmentEvent.process f ∈ events := List.mem_of_getElem? hi
    rcases (FragmentManager.KeyedBy.run hrun).stateFor f with hown | ⟨g, hg, hkey, hgid⟩
    · exact hown
    · have hg' := List.mem_of_mem_take hg
      have hinj := (hashKey_injective_iff (f := g) (g := f) (heids _ hg').1 (heids _ hf).1).mpr
        ⟨hshift _ hg' _ hf, hshift _ hf _ hg'⟩
      rw [hgid]
      exact hinj.mp hkey

/-- Two fragments that neither shift into each other. -/
theorem hashKey_unmixed_pair :
    (({ source := "dtn://a/b", dest := "ipn:1.2" } : Bundle).hashKey =
        ({ source := "dtn://a/c", dest := "ipn:1.2" } : Bundle).hashKey ↔
      ({ source := "dtn://a/b", dest := "ipn:1.2" } : Bundle).identity =
        ({ source := "dtn://a/c", dest := "ipn:1.2" } : Bundle).identity) ∧
    ((FragmentManager.stateFor {}
      { source := "dtn://a/b", dest := "ipn:1.2" }).bundle.identity =
        ({ source := "dtn://a/b", dest := "ipn:1.2" } : Bundle).identity) := by
  have hb : IsEid "dtn://a/b" :=
    ⟨['d', 't', 'n'], "//a/b".toList, by decide, by decide, by decide, by decide⟩
  have hc : IsEid "dtn://a/c" :=
    ⟨['d', 't', 'n'], "//a/c".toList, by decide, by decide, by decide, by decide⟩
  have hd : IsEid "ipn:1.2" :=
    ⟨['i', 'p', 'n'], "1.2".toList, by decide, by decide, by decide, by decide⟩
  have hshift : ∀ f g : Bundle, f.source.length = 9 → g.source.length = 9 → ¬ f.Shifted g := by
    rintro f g hf hg ⟨-, -, w, hw, hsource, -⟩
    rw [hsource, String.length_append] at hg
    exact hw (String.length_eq_zero_iff.mp (by omega))
  have hlenb : "dtn://a/b".length = 9 := by decide
  have hlenc : "dtn://a/c".length = 9 := by decide
  constructor
  · exact (hashKey_unmixed _ _ ⟨hb, hd⟩ ⟨hc, hd⟩ []).1.mpr
      ⟨hshift _ _ hlenb hlenc, hshift _ _ hlenc hlenb⟩
  · refine (hashKey_unmixed { source := "dtn://a/b", dest := "ipn:1.2" }
      { source := "dtn://a/c", dest := "ipn:1.2" } ⟨hb, hd⟩ ⟨hc, hd⟩
      [.process { source := "dtn://a/b", dest := "ipn:1.2" }]).2 ?_ ?_ 0 _ {} rfl rfl
    · simp [FragmentEvent.fragment, Bundle.HasEids, hb, hd]
    · simp only [List.mem_singleton, forall_eq]
      exact hshift _ _ hlenb hlenb

/-- The `i` of `ipn` belongs to the destination of one bundle and to the source of another, and the
second one's fragment goes to the first one's state. -/
theorem hashKey_mixed :
    ¬ ((∀ f g : Bundle, f.HasEids → g.HasEids → (f.hashKey = g.hashKey ↔ f.identity = g.identity)) ∧
      ∀ (events : List FragmentEvent), (∀ e ∈ events, e.fragment.HasEids) →
        ∀ (i : ℕ) (f : Bundle) (m : FragmentManager), events[i]? = some (.process f) →
          run FragmentManager.step {} (events.take i) = .ok m →
          (m.stateFor f).bundle.identity = f.identity) := by
  intro h
  have hf : Bundle.HasEids { source := "dtn://a/b", dest := "ipn:1.2" } :=
    ⟨⟨['d', 't', 'n'], "//a/b".toList, by decide, by decide, by decide, by decide⟩,
      ⟨['i', 'p', 'n'], "1.2".toList, by decide, by decide, by decide, by decide⟩⟩
  have hg : Bundle.HasEids { source := "dtn://a/bi", dest := "pn:1.2" } :=
    ⟨⟨['d', 't', 'n'], "//a/bi".toList, by decide, by decide, by decide, by decide⟩,
      ⟨['p', 'n'], "1.2".toList, by decide, by decide, by decide, by decide⟩⟩
  have hkeys := (hashKey_eq_iff hf.1 hg.1).mpr ⟨rfl, rfl, by decide⟩
  simpa [Bundle.identity] using (h.1 _ _ hf hg).mp hkeys

end Dtnme.Bundling
