import Dtnme.Library.Interner
import Dtnme.Naming.EndpointId

/-! # The text of an IPN endpoint

`strtoull` reads digits behind blanks and a sign and takes too large a value for the largest word.
So the texts that are accepted are two such numerals with a dot between them, and an endpoint, which
the pool keeps under its text, has as many ids as its numbers have numerals.
-/

namespace Dtnme.Naming
open Library

/-- What `strtoull` reads as a number. -/
structure Numeral where
  spaces : List UInt8
  sign : List UInt8
  digits : List UInt8
  isSpace_spaces : ∀ c ∈ spaces, isSpace c = true
  sign_eq : sign = [] ∨ sign = [43] ∨ sign = [45]
  isDigit_digits : ∀ c ∈ digits, isDigit c = true
  digits_ne_nil : digits ≠ []

namespace Numeral

def bytes (m : Numeral) : List UInt8 := m.spaces ++ (m.sign ++ m.digits)

/-- The word that a numeral is read as. -/
def word (m : Numeral) : ℕ :=
  if 2 ^ 64 ≤ ofDecimal 0 m.digits then 2 ^ 64 - 1
  else if m.sign = [45] then u64Sub 0 (ofDecimal 0 m.digits) else ofDecimal 0 m.digits

theorem bytes_ne_nil (m : Numeral) : m.bytes ≠ [] := by
  simp [bytes, m.digits_ne_nil]

theorem mem_bytes {m : Numeral} {c : UInt8} (h : c ∈ m.bytes) :
    isSpace c = true ∨ c = 43 ∨ c = 45 ∨ isDigit c = true := by
  simp only [bytes, List.mem_append] at h
  rcases h with h | h | h
  · exact Or.inl (m.isSpace_spaces c h)
  · rcases m.sign_eq with hs | hs | hs <;> simp [hs] at h <;> simp [h]
  · exact Or.inr (Or.inr (Or.inr (m.isDigit_digits c h)))

theorem dot_notMem (m : Numeral) : (46 : UInt8) ∉ m.bytes := by
  intro h
  have hnot : ¬ (isSpace 46 = true ∨ (46 : UInt8) = 43 ∨ (46 : UInt8) = 45 ∨ isDigit 46 = true) := by
    decide
  exact hnot (mem_bytes h)

end Numeral

/-! ## `strtoull` -/

theorem numeral_ten {l : List UInt8} (h : ∀ c ∈ l, isDigit c = true) :
    Strtoull.numeral UInt8.toNat 10 l = ofDecimal 0 l := by
  refine List.foldl_ext _ _ _ (fun v c hc => ?_)
  have hdigit := h c hc
  simp only [isDigit, Bool.and_eq_true, decide_eq_true_eq] at hdigit
  rw [Strtoull.digitValue, if_pos hdigit]

theorem strtoull_eq (s : List UInt8) :
    strtoull s =
      let spaces := (s.takeWhile isSpace).length
      let rest := s.drop spaces
      let sign := match rest with
        | c :: _ => if c = 43 || c = 45 then 1 else 0
        | [] => 0
      let digits := (rest.drop sign).takeWhile isDigit
      if digits = [] then (0, 0)
      else
        let v := ofDecimal 0 digits
        let v := if 2 ^ 64 ≤ v then 2 ^ 64 - 1 else if rest.head? = some 45 then u64Sub 0 v else v
        (v, spaces + sign + digits.length) := by
  have hspace : (fun c : UInt8 => Strtoull.isSpace c.toNat) = isSpace := rfl
  have hdigit : Strtoull.isDigitOf UInt8.toNat 10 = isDigit := funext fun c => Strtoull.isDigitOf_ten
  have hsign (l : List UInt8) : Strtoull.signLength UInt8.toNat l =
      match l with
      | c :: _ => if c = 43 || c = 45 then 1 else 0
      | [] => 0 := by
    cases l with
    | nil => rfl
    | cons c l => simp [Strtoull.signLength, ← UInt8.toNat_inj]
  have hhead (l : List UInt8) : l.head?.map UInt8.toNat = some 45 ↔ l.head? = some 45 := by
    cases l <;> simp [← UInt8.toNat_inj]
  have hvalue (l : List UInt8) : Strtoull.numeral UInt8.toNat 10 (l.takeWhile isDigit) =
      ofDecimal 0 (l.takeWhile isDigit) := numeral_ten fun c hc => List.mem_takeWhile_imp hc
  unfold strtoull Strtoull.strtoull
  simp only [Strtoull.magnitude_ten, Strtoull.scan, hdigit, hspace, hsign, hhead, hvalue,
    List.length_eq_zero_iff]

theorem not_isSpace_of_isDigit {c : UInt8} (h : isDigit c = true) : isSpace c = false := by
  simp only [isDigit, Bool.and_eq_true, decide_eq_true_eq] at h
  simp only [isSpace, Bool.or_eq_false_iff, Bool.and_eq_false_iff, decide_eq_false_iff_not]
  omega

theorem not_sign_of_isDigit {c : UInt8} (h : isDigit c = true) : c ≠ 43 ∧ c ≠ 45 := by
  constructor <;> rintro rfl <;> simp [isDigit] at h

namespace Numeral

theorem head?_signed (m : Numeral) (rest : List UInt8) :
    ∀ c ∈ (m.sign ++ m.digits ++ rest).head?, isSpace c = false := by
  intro c hc
  obtain ⟨d, ds, hd⟩ := List.exists_cons_of_ne_nil m.digits_ne_nil
  rcases m.sign_eq with hs | hs | hs <;> simp [hs, hd] at hc <;> subst hc
  · exact not_isSpace_of_isDigit (m.isDigit_digits d (by simp [hd]))
  · decide
  · decide

theorem strtoull_bytes (m : Numeral) (rest : List UInt8)
    (hrest : ∀ c ∈ rest.head?, isDigit c = false) :
    strtoull (m.bytes ++ rest) = (m.word, m.bytes.length) := by
  obtain ⟨d, ds, hd⟩ := List.exists_cons_of_ne_nil m.digits_ne_nil
  have hspaces : (m.bytes ++ rest).takeWhile isSpace = m.spaces := by
    have hassoc : m.bytes ++ rest = m.spaces ++ (m.sign ++ m.digits ++ rest) := by simp [bytes]
    rw [hassoc, takeWhile_span m.isSpace_spaces (m.head?_signed rest)]
  have hdrop : (m.bytes ++ rest).drop m.spaces.length = m.sign ++ m.digits ++ rest := by
    simp [bytes]
  have hdigits : (m.digits ++ rest).takeWhile isDigit = m.digits :=
    takeWhile_span m.isDigit_digits hrest
  have hnot := not_sign_of_isDigit (m.isDigit_digits d (by simp [hd]))
  rw [strtoull_eq]
  simp only [hspaces, hdrop]
  rcases m.sign_eq with hs | hs | hs
  · have hsign : m.sign ++ m.digits ++ rest = d :: (ds ++ rest) := by simp [hs, hd]
    have hback : d :: (ds ++ rest) = m.digits ++ rest := by simp [hd]
    simp only [hsign, hnot, decide_false, Bool.or_false, Bool.false_eq_true, if_false,
      List.drop_zero]
    rw [hback, hdigits, if_neg m.digits_ne_nil, word, hs]
    simp [bytes, hs, hd, hnot.2]
  · have hsign : m.sign ++ m.digits ++ rest = 43 :: (m.digits ++ rest) := by simp [hs]
    rw [hsign]
    simp only [decide_true, Bool.true_or, if_true, List.drop_succ_cons, List.drop_zero, hdigits,
      if_neg m.digits_ne_nil, word, hs]
    simp [bytes, hs, add_comm]
    omega
  · have hsign : m.sign ++ m.digits ++ rest = 45 :: (m.digits ++ rest) := by simp [hs]
    rw [hsign]
    simp only [decide_true, Bool.or_true, if_true, List.drop_succ_cons, List.drop_zero, hdigits,
      if_neg m.digits_ne_nil, word, hs]
    simp [bytes, hs, add_comm]
    omega

end Numeral

theorem exists_takeWhile_append (p : UInt8 → Bool) (s : List UInt8) :
    ∃ t, s = s.takeWhile p ++ t ∧ ∀ c ∈ t.head?, p c = false := by
  refine ⟨s.dropWhile p, (List.takeWhile_append_dropWhile).symm, fun c hc => ?_⟩
  have hnot := List.head?_dropWhile_not p s
  rw [Option.mem_def.mp hc] at hnot
  simpa using hnot

/-- A reading that uses something reads a numeral. -/
theorem strtoull_used {s : List UInt8} (h : (strtoull s).2 ≠ 0) :
    ∃ (m : Numeral) (rest : List UInt8), s = m.bytes ++ rest ∧
      strtoull s = (m.word, m.bytes.length) := by
  have hnumeral : ∃ (m : Numeral) (rest : List UInt8), s = m.bytes ++ rest ∧
      ∀ c ∈ rest.head?, isDigit c = false := by
    obtain ⟨t, ht, -⟩ := exists_takeWhile_append isSpace s
    have hspaces : ∀ c ∈ s.takeWhile isSpace, isSpace c = true := fun c hc => List.mem_takeWhile_imp hc
    have hdrop : s.drop (s.takeWhile isSpace).length = t := by
      have hcut := congrArg (List.drop (s.takeWhile isSpace).length) ht
      rwa [List.drop_left] at hcut
    rw [strtoull_eq] at h
    simp only [hdrop] at h
    generalize s.takeWhile isSpace = spaces at ht hspaces h
    cases t with
    | nil => simp at h
    | cons c t =>
      by_cases hsign : c = 43 ∨ c = 45
      · -- the digits are behind a sign
        obtain ⟨rest, hrest, hhead⟩ := exists_takeWhile_append isDigit t
        have hdigits : ∀ d ∈ t.takeWhile isDigit, isDigit d = true := fun d hd =>
          List.mem_takeWhile_imp hd
        have hne : t.takeWhile isDigit ≠ [] := by
          intro hnil
          simp [hsign, hnil] at h
        refine ⟨⟨spaces, [c], t.takeWhile isDigit, hspaces, ?_, hdigits, hne⟩, rest, ?_, hhead⟩
        · rcases hsign with rfl | rfl <;> simp
        · calc
            s = spaces ++ c :: (t.takeWhile isDigit ++ rest) := by rw [← hrest]; exact ht
            _ = _ := by simp [Numeral.bytes]
      · obtain ⟨rest, hrest, hhead⟩ := exists_takeWhile_append isDigit (c :: t)
        have hdigits : ∀ d ∈ (c :: t).takeWhile isDigit, isDigit d = true := fun d hd =>
          List.mem_takeWhile_imp hd
        have hne : (c :: t).takeWhile isDigit ≠ [] := by
          intro hnil
          simp [hsign, hnil] at h
        refine ⟨⟨spaces, [], (c :: t).takeWhile isDigit, hspaces, Or.inl rfl, hdigits, hne⟩, rest, ?_,
          hhead⟩
        calc
          s = spaces ++ ((c :: t).takeWhile isDigit ++ rest) := by rw [← hrest]; exact ht
          _ = _ := by simp [Numeral.bytes]
  obtain ⟨m, rest, rfl, hrest⟩ := hnumeral
  exact ⟨m, rest, rfl, m.strtoull_bytes rest hrest⟩

/-! ## Accepted texts -/

theorem findIdx_dot {a b : List UInt8} (ha : (46 : UInt8) ∉ a) :
    (a ++ 46 :: b).findIdx (· = 46) = a.length := by
  rw [List.findIdx_append]
  have hnone : a.findIdx (· = 46) = a.length := by
    rw [List.findIdx_eq_length]
    intro c hc
    exact decide_eq_false fun h => ha (h ▸ hc)
  simp [hnone, List.findIdx_cons]

/-- Two numerals with a dot between them. -/
theorem parseNumbers_eq_some {ssp : List UInt8} {n s : ℕ} :
    parseNumbers ssp = some (n, s) ↔
      ∃ a b : Numeral, ssp = a.bytes ++ 46 :: b.bytes ∧ n = a.word ∧ s = b.word := by
  constructor
  · intro h
    unfold parseNumbers at h
    dsimp only at h
    split_ifs at h with hdot hused hservice
    obtain ⟨hn, hs⟩ := Prod.mk.inj (Option.some.inj h)
    simp only [Bool.or_eq_true, decide_eq_true_eq, not_or, not_not] at hdot hused hservice
    have hne : (strtoull ssp).2 ≠ 0 := by rw [hused]; exact hdot.1
    obtain ⟨a, rest, hssp, ha⟩ := strtoull_used hne
    obtain ⟨b, rest', hssp', hb⟩ := strtoull_used hservice.1
    have hlen : a.bytes.length = ssp.findIdx (· = 46) := by rw [← hused, ha]
    have hlt : ssp.findIdx (· = 46) < ssp.length :=
      lt_of_le_of_ne List.findIdx_le_length hdot.2
    have hget : ssp[ssp.findIdx (· = 46)] = 46 := by
      have hp := @List.findIdx_getElem _ (· = 46) ssp hlt
      simpa using hp
    have hrest : rest = 46 :: ssp.drop (ssp.findIdx (· = 46) + 1) := by
      have hdrop : ssp.drop (ssp.findIdx (· = 46)) = rest := by
        rw [← hlen]
        conv_lhs => rw [hssp]
        exact List.drop_left
      rw [← hdrop, List.drop_eq_getElem_cons hlt, hget]
    have hend : rest' = [] := by
      have hlen' := congrArg List.length hssp'
      rw [List.length_append, List.length_drop] at hlen'
      rw [hb] at hservice
      apply List.eq_nil_of_length_eq_zero
      simp only at hservice
      omega
    refine ⟨a, b, ?_, by rw [← hn, ha], by rw [← hs, hb]⟩
    rw [hend, List.append_nil] at hssp'
    rw [← hssp', ← hrest]
    exact hssp
  · rintro ⟨a, b, rfl, rfl, rfl⟩
    have hdot := findIdx_dot (b := b.bytes) a.dot_notMem
    have hnode := a.strtoull_bytes (46 :: b.bytes) (by simp [isDigit])
    have hservice := b.strtoull_bytes [] (by simp)
    have hdrop : (a.bytes ++ 46 :: b.bytes).drop (a.bytes.length + 1) = b.bytes := by
      rw [List.drop_append]
      simp
    rw [List.append_nil] at hservice
    unfold parseNumbers
    simp [hdot, hnode, hdrop, hservice, a.bytes_ne_nil, b.bytes_ne_nil]
    omega

/-- A string of digits whose value is a word. -/
def Plain (l : List UInt8) : Prop :=
  l ≠ [] ∧ (∀ c ∈ l, isDigit c = true) ∧ ofDecimal 0 l < 2 ^ 64

/-- The numbers that a text is for. -/
def Denotes (ssp : List UInt8) (n s : ℕ) : Prop :=
  ssp = text "none" ∧ n = 0 ∧ s = 0 ∨
    ∃ a b, ssp = a ++ 46 :: b ∧ Plain a ∧ Plain b ∧ n = ofDecimal 0 a ∧ s = ofDecimal 0 b

/-- The text is accepted exactly if it is for some numbers, and as these. -/
def Exact (ssp : List UInt8) : Prop := ∀ n s, parseIpn ssp = some (n, s) ↔ Denotes ssp n s

namespace Numeral

/-- The numeral that is nothing but digits. -/
def ofPlain {l : List UInt8} (h : Plain l) : Numeral where
  spaces := []
  sign := []
  digits := l
  isSpace_spaces := by simp
  sign_eq := Or.inl rfl
  isDigit_digits := h.2.1
  digits_ne_nil := h.1

@[simp] theorem ofPlain_bytes {l : List UInt8} (h : Plain l) : (ofPlain h).bytes = l := by
  simp [ofPlain, bytes]

@[simp] theorem ofPlain_word {l : List UInt8} (h : Plain l) : (ofPlain h).word = ofDecimal 0 l := by
  have hlt := h.2.2
  simp [ofPlain, word]
  omega

theorem word_of_plain {m : Numeral} (h : Plain m.bytes) : m.word = ofDecimal 0 m.bytes := by
  have hspaces : m.spaces = [] := by
    apply List.eq_nil_iff_forall_not_mem.mpr
    intro c hc
    have hdigit := h.2.1 c (by simp [bytes, hc])
    have hspace := m.isSpace_spaces c hc
    rw [not_isSpace_of_isDigit hdigit] at hspace
    cases hspace
  have hsign : m.sign = [] := by
    rcases m.sign_eq with hs | hs | hs
    · exact hs
    · exact absurd (h.2.1 43 (by simp [bytes, hs])) (by decide)
    · exact absurd (h.2.1 45 (by simp [bytes, hs])) (by decide)
  have hbytes : m.bytes = m.digits := by simp [bytes, hspaces, hsign]
  have hlt := h.2.2
  rw [hbytes] at hlt ⊢
  rw [word, if_neg (by omega), hsign, if_neg (by simp)]

end Numeral

theorem none_ne_dotted (a b : List UInt8) : text "none" ≠ a ++ 46 :: b := by
  intro h
  have hmem : (46 : UInt8) ∈ text "none" := by simp [h]
  exact absurd hmem (by decide)

theorem dotted_inj {a b c d : List UInt8} (ha : (46 : UInt8) ∉ a) (hc : (46 : UInt8) ∉ c)
    (h : a ++ 46 :: b = c ++ 46 :: d) : a = c ∧ b = d := by
  have hlen : a.length = c.length := by
    rw [← findIdx_dot (b := b) ha, h, findIdx_dot hc]
  have hinj := List.append_inj h hlen
  exact ⟨hinj.1, (List.cons.inj hinj.2).2⟩

theorem Plain.dot_notMem {l : List UInt8} (h : Plain l) : (46 : UInt8) ∉ l := fun hmem =>
  absurd (h.2.1 46 hmem) (by decide)

theorem parseIpn_dotted (a b : Numeral) :
    parseIpn (a.bytes ++ 46 :: b.bytes) = some (a.word, b.word) := by
  rw [parseIpn, if_neg (Ne.symm (none_ne_dotted _ _))]
  exact parseNumbers_eq_some.mpr ⟨a, b, rfl, rfl, rfl⟩

/-- A text is read right unless it is two numerals of which one is not just digits for a word. -/
theorem exact_iff (ssp : List UInt8) :
    Exact ssp ↔ ∀ a b : Numeral, ssp = a.bytes ++ 46 :: b.bytes → Plain a.bytes ∧ Plain b.bytes := by
  constructor
  · rintro h a b rfl
    rcases (h a.word b.word).mp (parseIpn_dotted a b) with ⟨hnone, -, -⟩ | ⟨x, y, heq, hx, hy, -, -⟩
    · exact absurd hnone.symm (none_ne_dotted _ _)
    · obtain ⟨hax, hby⟩ := dotted_inj a.dot_notMem hx.dot_notMem heq
      rw [hax, hby]
      exact ⟨hx, hy⟩
  · intro h n s
    constructor
    · intro hparse
      unfold parseIpn at hparse
      split_ifs at hparse with hnone
      · obtain ⟨hn, hs⟩ := Prod.mk.inj (Option.some.inj hparse)
        exact Or.inl ⟨hnone, hn.symm, hs.symm⟩
      · obtain ⟨a, b, hssp, rfl, rfl⟩ := parseNumbers_eq_some.mp hparse
        obtain ⟨ha, hb⟩ := h a b hssp
        exact Or.inr ⟨a.bytes, b.bytes, hssp, ha, hb, a.word_of_plain ha, b.word_of_plain hb⟩
    · rintro (⟨rfl, rfl, rfl⟩ | ⟨a, b, rfl, ha, hb, rfl, rfl⟩)
      · rfl
      · simpa using parseIpn_dotted (Numeral.ofPlain ha) (Numeral.ofPlain hb)

/-! ## Formatted numbers -/

/-- `IPNScheme::format`. -/
def formatIpn (node service : ℕ) : List UInt8 := decimal node ++ text "." ++ decimal service

theorem plain_decimal {n : ℕ} (h : n < 2 ^ 64) : Plain (decimal n) :=
  ⟨decimal_ne_nil n, fun _ hc => isDigit_of_mem_decimal hc, by rwa [ofDecimal_decimal]⟩

theorem parseIpn_formatIpn {n s : ℕ} (hn : n < 2 ^ 64) (hs : s < 2 ^ 64) :
    parseIpn (formatIpn n s) = some (n, s) := by
  have hdot : text "." = [46] := by decide
  have hparse := parseIpn_dotted (Numeral.ofPlain (plain_decimal hn)) (Numeral.ofPlain (plain_decimal hs))
  simp only [Numeral.ofPlain_bytes, Numeral.ofPlain_word, ofDecimal_decimal] at hparse
  rw [formatIpn, hdot, List.append_assoc]
  exact hparse

/-! ## The pool -/

/-- The texts that have an endpoint; an index stands for the pointer to it. -/
abbrev EndpointIDPool := Interner (List UInt8)

/-- The pointers that a list of `make_eid` calls returns. -/
def EndpointIDPool.makeEids (pool : EndpointIDPool) (texts : List (List UInt8)) : List ℕ :=
  pool.internAll texts

/-- Both texts are valid ipn ids, of the same node and service. -/
def IpnAlike (parse : List UInt8 → Option Uri) (t u : List UInt8) : Prop :=
  (Eid.mk t).valid parse = true ∧ (Eid.mk u).valid parse = true ∧
    (Eid.mk t).scheme? parse = some .ipn ∧ (Eid.mk u).scheme? parse = some .ipn ∧
    (Eid.mk t).numbers parse = (Eid.mk u).numbers parse

instance (parse : List UInt8 → Option Uri) (t u : List UInt8) : Decidable (IpnAlike parse t u) := by
  unfold IpnAlike
  infer_instance

/-- A text is read exactly unless one of its two numerals has a blank, a sign or too large a value;
formatted numbers are read back; and endpoints of the same numbers are the same pointer as far as
they were made from the same text. -/
theorem ipn_exact (parse : List UInt8 → Option Uri) (ssp : List UInt8) (n s : UInt64)
    (pool : EndpointIDPool) (texts : List (List UInt8)) (i j : ℕ) :
    (Exact ssp ↔
      ∀ a b : Numeral, ssp = a.bytes ++ 46 :: b.bytes → Plain a.bytes ∧ Plain b.bytes) ∧
    parseIpn (formatIpn n.toNat s.toNat) = some (n.toNat, s.toNat) ∧
    ((∀ t u, texts[i]? = some t → texts[j]? = some u → IpnAlike parse t u →
        (pool.makeEids texts)[i]? = (pool.makeEids texts)[j]?) ↔
      ∀ t u, texts[i]? = some t → texts[j]? = some u → IpnAlike parse t u → t = u) := by
  refine ⟨exact_iff ssp, parseIpn_formatIpn n.toNat_lt s.toNat_lt, ?_⟩
  constructor
  · intro h t u ht hu halike
    exact (pool.internAll_eq_iff ht hu).mp (h t u ht hu halike)
  · intro h t u ht hu halike
    exact (pool.internAll_eq_iff ht hu).mpr (h t u ht hu halike)

/-- 2^64 is read as the largest word, and its endpoint is not that of the largest word. -/
theorem ipn_overflow :
    ¬ (∀ ssp, Exact ssp) ∧
    ¬ ∀ (parse : List UInt8 → Option Uri) (_ : IsUri parse) (pool : EndpointIDPool)
        (texts : List (List UInt8)) (i j : ℕ) (t u : List UInt8), texts[i]? = some t →
        texts[j]? = some u → IpnAlike parse t u →
        (pool.makeEids texts)[i]? = (pool.makeEids texts)[j]? := by
  constructor
  · intro h
    let a : Numeral := ⟨[], [], text "18446744073709551616", by simp, Or.inl rfl, by decide +kernel, by decide +kernel⟩
    let b : Numeral := ⟨[], [], text "1", by simp, Or.inl rfl, by decide +kernel, by decide +kernel⟩
    obtain ⟨⟨-, -, hlt⟩, -⟩ := (exact_iff _).mp (h (a.bytes ++ 46 :: b.bytes)) a b rfl
    revert hlt
    decide +kernel
  · intro h
    have halike : IpnAlike splitUri (text "ipn:18446744073709551616.1")
        (text "ipn:18446744073709551615.1") := by decide +kernel
    have hmade : EndpointIDPool.makeEids Interner.empty
        [text "ipn:18446744073709551616.1", text "ipn:18446744073709551615.1"] = [0, 1] := by
      decide +kernel
    have hsame := h splitUri isUri_splitUri Interner.empty
      [text "ipn:18446744073709551616.1", text "ipn:18446744073709551615.1"] 0 1 _ _ rfl rfl halike
    rw [hmade] at hsame
    simp at hsame

end Dtnme.Naming
