import Dtnme.Naming.EndpointId

/-! # Identities of bundles and fragments

`GbofId` formats source, creation time, sequence number and fragment fields into one string and
compares the strings. The buffer of `snprintf` holds 127 characters, the order asks for the
value -1 of a comparison that only promises a sign, and the field-wise comparison looks at the
pointer the pool of EIDs gave out, which depends on how the EID was spelled.
-/

namespace Dtnme.Bundling
open Library

/-- The characters that `oasys::URI` accepts. -/
def uriChar (c : UInt8) : Bool :=
  isDigit c || (65 ≤ c.toNat && c.toNat ≤ 90) || (97 ≤ c.toNat && c.toNat ≤ 122) ||
    (Naming.text "-._~!$&'()*+,;=:/?#[]@%").contains c

section
variable (normalized : List UInt8 → List UInt8)

/-- A valid `EndpointID` of the pool, which keeps it under the string it was made from; its URI is
the normalized one. -/
structure EndpointId where
  key : List UInt8
  chars : ∀ c ∈ normalized key, uriChar c = true
  length_le : (normalized key).length ≤ 1023 + 1 + 1023
  deriving DecidableEq

variable {normalized}

def EndpointId.uri (e : EndpointId normalized) : List UInt8 := normalized e.key

variable (normalized)

structure GbofId where
  source : EndpointId normalized
  secsOrMillisecs : ℕ
  seqno : ℕ
  isFragment : Bool
  fragLength : ℕ
  fragOffset : ℕ
  deriving DecidableEq

end

section
variable {normalized : List UInt8 → List UInt8}

/-- What is formatted, at full length. -/
def GbofId.text (g : GbofId normalized) : List UInt8 :=
  Naming.text "<" ++ (g.source.uri ++ (Naming.text ", " ++ (decimal g.secsOrMillisecs ++
    (Naming.text "." ++ (decimal g.seqno ++ ((if g.isFragment then
      Naming.text ", FRAG len " ++ (decimal g.fragLength ++
        (Naming.text " offset " ++ decimal g.fragOffset)) else []) ++ Naming.text ">"))))))

/-- `set_gbofid_str`: a buffer of 128 bytes, the last of which ends the string. -/
def GbofId.str (g : GbofId normalized) : List UInt8 := g.text.take 127

/-- The equality of strings that `equals` tests. -/
def GbofId.equals (g h : GbofId normalized) : Bool := g.str == h.str

/-- `equals` with the fields of `h`; sources are equal if the pool has one entry for them. -/
def GbofId.equalsFields (g h : GbofId normalized) : Bool :=
  g.secsOrMillisecs == h.secsOrMillisecs && g.seqno == h.seqno && g.isFragment == h.isFragment &&
    (!h.isFragment || (g.fragLength == h.fragLength && g.fragOffset == h.fragOffset)) &&
    g.source.key == h.source.key

/-- `std::string::compare`: the common part first, then the lengths. -/
def compareStrings (memcmp : List UInt8 → List UInt8 → ℤ) (s t : List UInt8) : ℤ :=
  let n := min s.length t.length
  let r := memcmp (s.take n) (t.take n)
  if r ≠ 0 then r else max (-2 ^ 31) (min (2 ^ 31 - 1) ((s.length : ℤ) - t.length))

/-- `operator<`. -/
def GbofId.less (memcmp : List UInt8 → List UInt8 → ℤ) (g h : GbofId normalized) : Bool :=
  compareStrings memcmp g.str h.str == -1

/-! ## The text -/

theorem uriChar_ne {c : UInt8} (hc : uriChar c = true) : c ≠ 32 ∧ c ≠ 62 := by
  constructor <;> rintro rfl <;> exact absurd hc (by decide)

theorem space_notMem_uri (e : EndpointId normalized) : (32 : UInt8) ∉ e.uri :=
  fun h => (uriChar_ne (e.chars _ h)).1 rfl

theorem gt_notMem_uri (e : EndpointId normalized) : (62 : UInt8) ∉ e.uri :=
  fun h => (uriChar_ne (e.chars _ h)).2 rfl

theorem notMem_decimal {n : ℕ} {c : UInt8} (hc : isDigit c = false) : c ∉ decimal n := by
  intro h
  rw [isDigit_of_mem_decimal h] at hc
  exact Bool.noConfusion hc

/-- Lists that are cut at the first occurrence of a byte. -/
theorem append_cons_cut {a b x y : List UInt8} {c : UInt8} (ha : c ∉ a) (hb : c ∉ b)
    (h : a ++ c :: x = b ++ c :: y) : a = b ∧ x = y := by
  induction a generalizing b with
  | nil =>
    cases b with
    | nil => exact ⟨rfl, (List.cons.inj h).2⟩
    | cons d b =>
      rw [List.nil_append, List.cons_append] at h
      exact absurd ((List.cons.inj h).1 ▸ List.mem_cons_self ..) hb
  | cons d a ih =>
    cases b with
    | nil =>
      rw [List.nil_append, List.cons_append] at h
      exact absurd ((List.cons.inj h).1 ▸ List.mem_cons_self ..) ha
    | cons d' b =>
      rw [List.cons_append, List.cons_append] at h
      obtain ⟨rfl, htail⟩ := List.cons.inj h
      obtain ⟨rfl, hxy⟩ := ih (fun hm => ha (List.mem_cons_of_mem _ hm))
        (fun hm => hb (List.mem_cons_of_mem _ hm)) htail
      exact ⟨rfl, hxy⟩

/-- The fields that make up an identity. -/
structure GbofId.Same (g h : GbofId normalized) : Prop where
  uri : g.source.uri = h.source.uri
  secsOrMillisecs : g.secsOrMillisecs = h.secsOrMillisecs
  seqno : g.seqno = h.seqno
  isFragment : g.isFragment = h.isFragment
  fragment : h.isFragment = true → g.fragLength = h.fragLength ∧ g.fragOffset = h.fragOffset

theorem GbofId.text_eq_of_same {g h : GbofId normalized} (hs : g.Same h) : g.text = h.text := by
  unfold GbofId.text
  rw [hs.uri, hs.secsOrMillisecs, hs.seqno, hs.isFragment]
  cases hf : h.isFragment with
  | false => rfl
  | true => rw [(hs.fragment hf).1, (hs.fragment hf).2]

/-- The full text determines the identity. -/
theorem GbofId.same_of_text_eq {g h : GbofId normalized} (ht : g.text = h.text) : g.Same h := by
  have hcomma : ∀ e : EndpointId normalized, (32 : UInt8) ∉ e.uri ++ [44] := by
    intro e hm
    rcases List.mem_append.mp hm with hm | hm
    · exact space_notMem_uri e hm
    · simp at hm
  -- the first blank stands behind the source and a comma
  have hcut : ∀ k : GbofId normalized, k.text = 60 :: ((k.source.uri ++ [44]) ++ 32 ::
      (decimal k.secsOrMillisecs ++ 46 :: (decimal k.seqno ++ ((if k.isFragment then
        Naming.text ", FRAG len " ++ (decimal k.fragLength ++
          (Naming.text " offset " ++ decimal k.fragOffset))
          else []) ++ Naming.text ">")))) := by
    intro k
    rw [GbofId.text, show Naming.text "<" = [60] from rfl,
      show Naming.text ", " = [44] ++ [32] from rfl, show Naming.text "." = [46] from rfl]
    simp only [List.append_assoc, List.cons_append, List.nil_append]
  rw [hcut g, hcut h] at ht
  obtain ⟨hsource, ht⟩ := append_cons_cut (hcomma _) (hcomma _) (List.cons.inj ht).2
  obtain ⟨hsecs, ht⟩ := append_cons_cut (notMem_decimal (by decide)) (notMem_decimal (by decide)) ht
  have hseq : g.seqno = h.seqno ∧ g.isFragment = h.isFragment ∧
      (h.isFragment = true → g.fragLength = h.fragLength ∧ g.fragOffset = h.fragOffset) := by
    have hgt : Naming.text ">" = [62] := rfl
    have hfrag : Naming.text ", FRAG len " = 44 :: Naming.text " FRAG len " := rfl
    have hoff : Naming.text " offset " = 32 :: Naming.text "offset " := rfl
    cases hfg : g.isFragment <;> cases hfh : h.isFragment <;>
      simp only [hfg, hfh, if_true, if_false, Bool.false_eq_true, List.nil_append, hgt, hfrag,
        List.cons_append, List.append_assoc] at ht
    · obtain ⟨hd, _⟩ := append_cons_cut (notMem_decimal (by decide)) (notMem_decimal (by decide)) ht
      exact ⟨decimal_injective hd, rfl, fun hc => absurd hc (by simp)⟩
    · -- the digits of one end in front of `>`, those of the other in front of a comma
      exfalso
      have hmem : (44 : UInt8) ∈ decimal g.seqno ++ [62] := by
        rw [ht]
        simp
      rcases List.mem_append.mp hmem with hm | hm
      · exact notMem_decimal (by decide) hm
      · simp at hm
    · exfalso
      have hmem : (44 : UInt8) ∈ decimal h.seqno ++ [62] := by
        rw [← ht]
        simp
      rcases List.mem_append.mp hmem with hm | hm
      · exact notMem_decimal (by decide) hm
      · simp at hm
    · obtain ⟨hd, ht⟩ := append_cons_cut (notMem_decimal (by decide)) (notMem_decimal (by decide)) ht
      rw [hoff] at ht
      have ht := List.append_cancel_left ht
      simp only [List.cons_append] at ht
      obtain ⟨hl, ht⟩ := append_cons_cut (notMem_decimal (by decide)) (notMem_decimal (by decide)) ht
      have ht := List.append_cancel_left ht
      obtain ⟨ho, _⟩ := append_cons_cut (notMem_decimal (by decide)) (notMem_decimal (by decide)) ht
      exact ⟨decimal_injective hd, rfl, fun _ => ⟨decimal_injective hl, decimal_injective ho⟩⟩
  exact ⟨List.append_cancel_right hsource, decimal_injective hsecs, hseq.1, hseq.2.1, hseq.2.2⟩

/-- The text ends with the only `>` in it. -/
theorem GbofId.text_eq_append (g : GbofId normalized) :
    ∃ body, g.text = body ++ [62] ∧ (62 : UInt8) ∉ body := by
  refine ⟨Naming.text "<" ++ (g.source.uri ++ (Naming.text ", " ++ (decimal g.secsOrMillisecs ++
    (Naming.text "." ++ (decimal g.seqno ++ (if g.isFragment then
      Naming.text ", FRAG len " ++ (decimal g.fragLength ++
        (Naming.text " offset " ++ decimal g.fragOffset)) else [])))))), ?_, ?_⟩
  · rw [GbofId.text, show Naming.text ">" = [62] from rfl]
    simp only [List.append_assoc]
  · have hnone : ∀ {l : List UInt8}, l.all (· != 62) = true → (62 : UInt8) ∉ l := by
      intro l hl hm
      exact absurd (List.all_eq_true.mp hl 62 hm) (by decide)
    have hdec : ∀ n, (62 : UInt8) ∉ decimal n := fun n => notMem_decimal (by decide)
    simp only [List.mem_append, not_or]
    refine ⟨hnone (by decide), gt_notMem_uri _, hnone (by decide), hdec _, hnone (by decide),
      hdec _, ?_⟩
    split_ifs
    · simp only [List.mem_append, not_or]
      exact ⟨hnone (by decide), hdec _, hnone (by decide), hdec _⟩
    · simp

/-- No string is a proper beginning of another. -/
theorem GbofId.str_eq_of_take {g h : GbofId normalized} (ht : h.str.take g.str.length = g.str) :
    g.str = h.str := by
  have hmax : h.str.length ≤ 127 := by
    rw [GbofId.str, List.length_take]
    omega
  have hle : g.str.length ≤ h.str.length := by
    have hlen := congrArg List.length ht
    rw [List.length_take] at hlen
    omega
  by_cases hfull : g.str.length = 127
  · rw [List.take_of_length_le (by omega)] at ht
    exact ht.symm
  have hg : g.str = g.text := by
    rw [GbofId.str] at hfull ⊢
    rw [List.length_take] at hfull
    exact List.take_of_length_le (by omega)
  obtain ⟨body, hbody, _⟩ := g.text_eq_append
  obtain ⟨body', hbody', hnot⟩ := h.text_eq_append
  -- the last character of the shorter string is the last of the longer
  have hpre : body ++ [62] <+: body' ++ [62] := by
    rw [← hbody, ← hbody', ← hg, ← ht]
    exact (List.take_prefix _ _).trans (List.take_prefix _ _)
  have hend : body ++ [62] = body' ++ [62] := by
    rcases List.prefix_concat_iff.mp hpre with heq | hin
    · exact heq
    · exact absurd (hin.subset (by simp)) hnot
  have htext : g.text = h.text := by rw [hbody, hbody', hend]
  rw [GbofId.str, GbofId.str, htext]

/-! ## Comparing strings -/

/-- The order of the bytes. -/
def Below (s t : List UInt8) : Prop := s.map UInt8.toNat < t.map UInt8.toNat

/-- What is promised of `memcmp`: the sign. -/
structure IsMemcmp (memcmp : List UInt8 → List UInt8 → ℤ) : Prop where
  neg_iff : ∀ {a b}, a.length = b.length → (memcmp a b < 0 ↔ Below a b)
  zero_iff : ∀ {a b}, a.length = b.length → (memcmp a b = 0 ↔ a = b)

theorem Below.take {s t : List UInt8} (h : Below s t) :
    Below (s.take (min s.length t.length)) (t.take (min s.length t.length)) ∨
      s.take (min s.length t.length) = t.take (min s.length t.length) := by
  induction s generalizing t with
  | nil => right; simp
  | cons a s ih =>
    cases t with
    | nil => right; simp
    | cons b t =>
      rw [List.length_cons, List.length_cons, Nat.succ_min_succ, List.take_succ_cons,
        List.take_succ_cons]
      unfold Below at h ih ⊢
      rw [List.map_cons, List.map_cons, List.cons_lt_cons_iff] at h
      rw [List.map_cons, List.map_cons, List.cons_lt_cons_iff]
      rcases h with hab | ⟨hab, hst⟩
      · exact .inl (.inl hab)
      · rcases ih hst with hlt | heq
        · exact .inl (.inr ⟨hab, hlt⟩)
        · right
          rw [heq, UInt8.toNat_inj.mp hab]

theorem below_of_take {s t : List UInt8} {n : ℕ} (h : Below (s.take n) (t.take n)) : Below s t := by
  induction n generalizing s t with
  | zero => simp [Below] at h
  | succ n ih =>
    cases s with
    | nil =>
      cases t with
      | nil => simp [Below] at h
      | cons b t => simp [Below]
    | cons a s =>
      cases t with
      | nil => simp [Below] at h
      | cons b t =>
        unfold Below at h ih ⊢
        rw [List.take_succ_cons, List.take_succ_cons, List.map_cons, List.map_cons,
          List.cons_lt_cons_iff] at h
        rw [List.map_cons, List.map_cons, List.cons_lt_cons_iff]
        rcases h with hab | ⟨hab, hst⟩
        · exact .inl hab
        · exact .inr ⟨hab, ih hst⟩

theorem below_total {s t : List UInt8} (h : s ≠ t) : Below s t ∨ Below t s := by
  rcases lt_trichotomy (s.map UInt8.toNat) (t.map UInt8.toNat) with hlt | heq | hgt
  · exact .inl hlt
  · exact absurd (List.map_injective_iff.mpr (fun a b hab => UInt8.toNat_inj.mp hab) heq) h
  · exact .inr hgt

variable {memcmp : List UInt8 → List UInt8 → ℤ}

theorem GbofId.common_ne {g h : GbofId normalized} (hne : g.str ≠ h.str) :
    g.str.take (min g.str.length h.str.length) ≠ h.str.take (min g.str.length h.str.length) := by
  intro heq
  rcases le_total g.str.length h.str.length with hle | hle
  · rw [min_eq_left hle, List.take_length] at heq
    exact hne (GbofId.str_eq_of_take heq.symm)
  · rw [min_eq_right hle, List.take_length] at heq
    exact hne (GbofId.str_eq_of_take heq).symm

theorem length_common (s t : List UInt8) :
    (s.take (min s.length t.length)).length = (t.take (min s.length t.length)).length := by
  rw [List.length_take, List.length_take]
  omega

/-- Identities compare as their common parts do. -/
theorem GbofId.compare_eq (hm : IsMemcmp memcmp) {g h : GbofId normalized} (hne : g.str ≠ h.str) :
    compareStrings memcmp g.str h.str =
      memcmp (g.str.take (min g.str.length h.str.length))
        (h.str.take (min g.str.length h.str.length)) := by
  unfold compareStrings
  apply if_pos
  rw [ne_eq, hm.zero_iff (length_common _ _)]
  exact GbofId.common_ne hne

theorem GbofId.compare_neg_iff (hm : IsMemcmp memcmp) {g h : GbofId normalized}
    (hne : g.str ≠ h.str) : compareStrings memcmp g.str h.str < 0 ↔ Below g.str h.str := by
  rw [GbofId.compare_eq hm hne, hm.neg_iff (length_common _ _)]
  exact ⟨below_of_take, fun hb => hb.take.resolve_right (GbofId.common_ne hne)⟩

theorem compareStrings_self (hm : IsMemcmp memcmp) (s : List UInt8) :
    compareStrings memcmp s s = 0 := by
  have h0 : memcmp s s = 0 := (hm.zero_iff rfl).mpr rfl
  simp [compareStrings, h0]

theorem GbofId.below_of_less (hm : IsMemcmp memcmp) {g h : GbofId normalized}
    (hl : g.less memcmp h = true) : Below g.str h.str := by
  have hc : compareStrings memcmp g.str h.str = -1 := by simpa [GbofId.less] using hl
  have hne : g.str ≠ h.str := by
    intro heq
    rw [heq, compareStrings_self hm] at hc
    exact absurd hc (by decide)
  rw [← GbofId.compare_neg_iff hm hne, hc]
  decide

/-! ## Identities -/

/-- The strings identify the bundles of `S`: they are equal for equal fields only, both forms of
`equals` agree, and `operator<` orders the identities. -/
structure Identifies (memcmp : List UInt8 → List UInt8 → ℤ) (S : Set (GbofId normalized)) :
    Prop where
  str_eq_iff : ∀ g ∈ S, ∀ h ∈ S, g.str = h.str ↔ g.Same h
  equals_eq : ∀ g ∈ S, ∀ h ∈ S, g.equals h = g.equalsFields h
  irrefl : ∀ g ∈ S, ∀ h ∈ S, g.Same h → g.less memcmp h = false
  trans : ∀ g ∈ S, ∀ h ∈ S, ∀ k ∈ S, g.less memcmp h = true → h.less memcmp k = true →
    g.less memcmp k = true
  total : ∀ g ∈ S, ∀ h ∈ S, ¬ g.Same h → g.less memcmp h = true ∨ h.less memcmp g = true

/-- No two identities of `S` differ behind the 127th character only, each is spelled in one way, and
`memcmp` answers with -1 when it answers with a negative number. -/
structure Separated (memcmp : List UInt8 → List UInt8 → ℤ) (S : Set (GbofId normalized)) :
    Prop where
  fits : ∀ g ∈ S, ∀ h ∈ S, 127 < g.text.length → 127 < h.text.length →
    g.text.take 127 = h.text.take 127 → g.Same h
  spelling : ∀ g ∈ S, ∀ h ∈ S, g.Same h → g.source.key = h.source.key
  answer : ∀ g ∈ S, ∀ h ∈ S, Below g.str h.str →
    memcmp (g.str.take (min g.str.length h.str.length))
      (h.str.take (min g.str.length h.str.length)) = -1

/-- A cut text is not the text of another identity. -/
theorem GbofId.lt_length_of_str_eq {g h : GbofId normalized} (hstr : g.str = h.str)
    (hg : 127 < g.text.length) : 127 < h.text.length := by
  by_contra hh
  have hcut : h.str = h.text := List.take_of_length_le (by omega)
  obtain ⟨body, hbody, hnot⟩ := g.text_eq_append
  obtain ⟨body', hbody', _⟩ := h.text_eq_append
  have hmem : (62 : UInt8) ∈ g.str := by
    rw [hstr, hcut, hbody']
    simp
  rw [GbofId.str, hbody, List.take_append_of_le_length] at hmem
  · exact hnot (List.mem_of_mem_take hmem)
  · rw [hbody, List.length_append, List.length_singleton] at hg
    omega

theorem GbofId.str_eq_iff {g h : GbofId normalized}
    (hfits : 127 < g.text.length → 127 < h.text.length → g.text.take 127 = h.text.take 127 →
      g.Same h) : g.str = h.str ↔ g.Same h := by
  constructor
  · intro hstr
    by_cases hg : 127 < g.text.length
    · exact hfits hg (GbofId.lt_length_of_str_eq hstr hg) hstr
    · have hh : ¬ 127 < h.text.length := fun hh => hg (GbofId.lt_length_of_str_eq hstr.symm hh)
      rw [GbofId.str, GbofId.str, List.take_of_length_le (by omega),
        List.take_of_length_le (by omega)] at hstr
      exact GbofId.same_of_text_eq hstr
  · intro hs
    rw [GbofId.str, GbofId.str, GbofId.text_eq_of_same hs]

theorem GbofId.equalsFields_iff (g h : GbofId normalized) :
    g.equalsFields h = true ↔ g.Same h ∧ g.source.key = h.source.key := by
  constructor
  · intro he
    simp only [GbofId.equalsFields, Bool.and_eq_true, Bool.or_eq_true, beq_iff_eq,
      Bool.not_eq_true'] at he
    obtain ⟨⟨⟨⟨hsecs, hseq⟩, hfrag⟩, hfields⟩, hkey⟩ := he
    refine ⟨⟨?_, hsecs, hseq, hfrag, fun hf => ?_⟩, hkey⟩
    · rw [EndpointId.uri, EndpointId.uri, hkey]
    · exact hfields.resolve_left (by simp [hf])
  · rintro ⟨hs, hkey⟩
    simp only [GbofId.equalsFields, Bool.and_eq_true, Bool.or_eq_true, beq_iff_eq,
      Bool.not_eq_true']
    refine ⟨⟨⟨⟨hs.secsOrMillisecs, hs.seqno⟩, hs.isFragment⟩, ?_⟩, hkey⟩
    cases hf : h.isFragment with
    | false => exact .inl rfl
    | true => exact .inr (hs.fragment hf)

/-- A negative answer of -1 orders two identities. -/
theorem GbofId.less_of_below (hm : IsMemcmp memcmp) {S : Set (GbofId normalized)}
    (h : Separated memcmp S) {g k : GbofId normalized} (hg : g ∈ S) (hk : k ∈ S)
    (hb : Below g.str k.str) : g.less memcmp k = true := by
  have hne : g.str ≠ k.str := by
    intro heq
    rw [heq] at hb
    exact lt_irrefl _ hb
  simp only [GbofId.less, beq_iff_eq]
  rw [GbofId.compare_eq hm hne]
  exact h.answer g hg k hk hb

theorem Identifies.separated (hm : IsMemcmp memcmp) {S : Set (GbofId normalized)}
    (h : Identifies memcmp S) : Separated memcmp S where
  fits := fun g hg k hk _ _ htake => (h.str_eq_iff g hg k hk).mp htake
  spelling := by
    intro g hg k hk hs
    have heq : g.equals k = true := by
      simpa [GbofId.equals] using (h.str_eq_iff g hg k hk).mpr hs
    rw [h.equals_eq g hg k hk] at heq
    exact ((GbofId.equalsFields_iff g k).mp heq).2
  answer := by
    intro g hg k hk hb
    have hne : g.str ≠ k.str := by
      intro heq
      rw [heq] at hb
      exact lt_irrefl _ hb
    have hnot : ¬ g.Same k := fun hs => hne ((h.str_eq_iff g hg k hk).mpr hs)
    rcases h.total g hg k hk hnot with hless | hless
    · rw [← GbofId.compare_eq hm hne]
      simpa [GbofId.less] using hless
    · exact absurd (GbofId.below_of_less hm hless) (not_lt.mpr hb.le)

theorem Separated.identifies (hm : IsMemcmp memcmp) {S : Set (GbofId normalized)}
    (h : Separated memcmp S) : Identifies memcmp S where
  str_eq_iff := fun g hg k hk => GbofId.str_eq_iff (h.fits g hg k hk)
  equals_eq := by
    intro g hg k hk
    rw [Bool.eq_iff_iff, GbofId.equalsFields_iff, GbofId.equals, beq_iff_eq,
      GbofId.str_eq_iff (h.fits g hg k hk)]
    exact ⟨fun hs => ⟨hs, h.spelling g hg k hk hs⟩, fun hs => hs.1⟩
  irrefl := by
    intro g hg k hk hs
    have heq := (GbofId.str_eq_iff (h.fits g hg k hk)).mpr hs
    simp [GbofId.less, heq, compareStrings_self hm]
  trans := by
    intro g hg k hk l hl h₁ h₂
    exact GbofId.less_of_below hm h hg hl
      (lt_trans (GbofId.below_of_less hm h₁) (GbofId.below_of_less hm h₂))
  total := by
    intro g hg k hk hnot
    have hne : g.str ≠ k.str := fun heq =>
      hnot ((GbofId.str_eq_iff (h.fits g hg k hk)).mp heq)
    exact (below_total hne).imp (GbofId.less_of_below hm h hg hk) (GbofId.less_of_below hm h hk hg)

/-- Exactly the separated identities are identified. -/
theorem identifies_iff_separated (hm : IsMemcmp memcmp) (S : Set (GbofId normalized)) :
    Identifies memcmp S ↔ Separated memcmp S :=
  ⟨Identifies.separated hm, Separated.identifies hm⟩

end

/-! ## The comparison of bytes as a difference -/

/-- `memcmp` as the difference of the first bytes that differ. -/
def byteDifference : List UInt8 → List UInt8 → ℤ
  | a :: s, b :: t => if a = b then byteDifference s t else (a.toNat : ℤ) - b.toNat
  | _, _ => 0

theorem byteDifference_isMemcmp : IsMemcmp byteDifference where
  neg_iff := by
    intro a b
    induction a generalizing b with
    | nil =>
      intro hlen
      have hb : b = [] := List.length_eq_zero_iff.mp hlen.symm
      simp [hb, byteDifference, Below]
    | cons c a ih =>
      intro hlen
      cases b with
      | nil => simp at hlen
      | cons d b =>
        unfold Below
        rw [List.map_cons, List.map_cons, List.cons_lt_cons_iff, byteDifference]
        by_cases hcd : c = d
        · rw [if_pos hcd, ih (by simpa using hlen), hcd]
          simp [Below]
        · have hne : c.toNat ≠ d.toNat := fun h => hcd (UInt8.toNat_inj.mp h)
          rw [if_neg hcd]
          constructor
          · intro hlt
            left
            omega
          · rintro (hlt | ⟨heq, _⟩)
            · omega
            · exact absurd heq hne
  zero_iff := by
    intro a b
    induction a generalizing b with
    | nil =>
      intro hlen
      have hb : b = [] := List.length_eq_zero_iff.mp hlen.symm
      simp [hb, byteDifference]
    | cons c a ih =>
      intro hlen
      cases b with
      | nil => simp at hlen
      | cons d b =>
        rw [byteDifference]
        by_cases hcd : c = d
        · rw [if_pos hcd, ih (by simpa using hlen), hcd]
          simp
        · have hne : c.toNat ≠ d.toNat := fun h => hcd (UInt8.toNat_inj.mp h)
          rw [if_neg hcd]
          constructor
          · intro h0
            omega
          · intro heq
            exact absurd (List.cons.inj heq).1 hcd

/-- A bundle of the source `dtn://aaa…` with `n` letters. -/
def GbofId.numbered (n : ℕ) (hn : n ≤ 200) (seqno : ℕ) : GbofId id where
  source := ⟨Naming.text "dtn://" ++ List.replicate n 97, by
    intro c hc
    rcases List.mem_append.mp hc with hc | hc
    · exact List.all_eq_true.mp (by decide : (Naming.text "dtn://").all uriChar = true) c hc
    · rw [List.eq_of_mem_replicate hc]
      decide, by
    have hlen : (Naming.text "dtn://").length = 6 := rfl
    rw [id_eq, List.length_append, hlen, List.length_replicate]
    omega⟩
  secsOrMillisecs := 1
  seqno := seqno
  isFragment := false
  fragLength := 0
  fragOffset := 0

theorem GbofId.not_same_numbered {m n : ℕ} {hm : m ≤ 200} {hn : n ≤ 200} {i j : ℕ} (h : i ≠ j) :
    ¬ (GbofId.numbered m hm i).Same (GbofId.numbered n hn j) :=
  fun hs => h hs.seqno

/-- Two bundles of a long source have one string, and of two of a short source neither is less. -/
theorem gbofId_collides :
    (GbofId.numbered 120 (by decide) 1).str = (GbofId.numbered 120 (by decide) 2).str ∧
      ¬ (GbofId.numbered 120 (by decide) 1).Same (GbofId.numbered 120 (by decide) 2) ∧
      (GbofId.numbered 1 (by decide) 1).less byteDifference (GbofId.numbered 1 (by decide) 3) = false ∧
      (GbofId.numbered 1 (by decide) 3).less byteDifference (GbofId.numbered 1 (by decide) 1) = false ∧
      ¬ (GbofId.numbered 1 (by decide) 1).Same (GbofId.numbered 1 (by decide) 3) := by
  refine ⟨?_, GbofId.not_same_numbered (by decide), ?_, ?_, GbofId.not_same_numbered (by decide)⟩
  · decide +kernel
  · decide +kernel
  · decide +kernel

/-- Neighbouring numbers of a short source. -/
theorem identifies_neighbours :
    Identifies byteDifference {GbofId.numbered 1 (by decide) 1, GbofId.numbered 1 (by decide) 2} := by
  apply (identifies_iff_separated byteDifference_isMemcmp _).mpr
  have hshort : ∀ k ∈ ({GbofId.numbered 1 (by decide) 1, GbofId.numbered 1 (by decide) 2} :
      Set (GbofId id)), ¬ 127 < k.text.length := by
    rintro k (rfl | rfl)
    · decide +kernel
    · decide +kernel
  refine ⟨fun g hg _ _ hlong => absurd hlong (hshort g hg), ?_, ?_⟩
  · rintro g (rfl | rfl) h (rfl | rfl) _
    · rfl
    · rfl
    · rfl
    · rfl
  · rintro g (rfl | rfl) h (rfl | rfl) hb
    · exact absurd hb (lt_irrefl _)
    · decide +kernel
    · exact absurd hb (by unfold Below; decide +kernel)
    · exact absurd hb (lt_irrefl _)

end Dtnme.Bundling
