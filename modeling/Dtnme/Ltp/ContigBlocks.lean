import Dtnme.Library.Runs
import Dtnme.Ltp.Session

/-! # The block map of a red part

What one call of the block check does to a canonical block map. A repeated range
leaves the map alone. A mergeable range is absorbed into one block. On any other
range the check either fails an assertion or leaves a map that is not canonical.
-/

namespace Dtnme.Ltp
open Library Runs

variable {blocks : OrdMap ℕ ℕ} {S : Set ℕ} {start stop : ℕ}

/-- The range lies inside one block. -/
def Repeats (blocks : OrdMap ℕ ℕ) (start stop : ℕ) : Prop :=
  ∃ a b, blocks.find? a = some b ∧ a ≤ start ∧ stop ≤ b

/-- No block holds the byte. -/
def Unreceived (blocks : OrdMap ℕ ℕ) (x : ℕ) : Prop :=
  ∀ a b, blocks.find? a = some b → a ≤ x → b < x

/-- A block is entered beyond its first byte only from below all blocks, and then no
other block is reached. -/
def EntersOne (blocks : OrdMap ℕ ℕ) (start stop : ℕ) : Prop :=
  ∀ b c, blocks.find? b = some c → start < b → b < stop →
    (∀ p q, blocks.find? p = some q → start < p) ∧
      ∀ b' c', blocks.find? b' = some c' → b < b' → stop + 1 < b'

/-- The range starts inside a block and runs past its end, into a gap that has another block
above it. With no block above, only the last byte of the block may repeat. -/
def Extends (blocks : OrdMap ℕ ℕ) (start stop : ℕ) : Prop :=
  ∃ p q, blocks.find? p = some q ∧ p < start ∧ start ≤ q ∧ q < stop ∧
    (∀ b c, blocks.find? b = some c → p < b → stop ≤ b) ∧
      (q = start ∨ ∃ b c, blocks.find? b = some c ∧ p < b)

/-- The ranges that the check merges as it should. -/
def Mergeable (blocks : OrdMap ℕ ℕ) (start stop : ℕ) : Prop :=
  (Unreceived blocks start ∧ EntersOne blocks start stop) ∨ Extends blocks start stop

instance : Decidable (Repeats blocks start stop) := by
  unfold Repeats
  infer_instance

instance (x : ℕ) : Decidable (Unreceived blocks x) := by
  unfold Unreceived
  infer_instance

instance : Decidable (EntersOne blocks start stop) := by
  unfold EntersOne
  infer_instance

instance : Decidable (Extends blocks start stop) := by
  unfold Extends
  infer_instance

instance : Decidable (Mergeable blocks start stop) := by
  unfold Mergeable
  infer_instance

/-- The block `[cs, ct]` takes the place of all the blocks that the range meets or abuts. -/
structure Absorbed (blocks blocks' : OrdMap ℕ ℕ) (start stop cs ct : ℕ) (overlap : Bool) :
    Prop where
  first : cs ≤ start
  last : stop ≤ ct
  bound : ct + 1 < 2 ^ 64
  find : ∀ p, blocks'.find? p = if p = cs then some ct else
    if cs ≤ p ∧ p ≤ ct then none else blocks.find? p
  low : ∀ p q, blocks.find? p = some q → p < cs → q + 1 < cs
  inside : ∀ p q, blocks.find? p = some q → cs ≤ p → p ≤ ct → q ≤ ct
  high : ∀ p q, blocks.find? p = some q → ct < p → ct + 1 < p
  filled : ∀ x, cs ≤ x → x ≤ ct → (start ≤ x ∧ x ≤ stop) ∨
    ∃ a b, blocks.find? a = some b ∧ a ≤ x ∧ x ≤ b
  apart : overlap = false → ∀ a b, blocks.find? a = some b → b < start ∨ stop < a

theorem checkRedContigBlocks_repeats (h : Decomposes blocks.find? S) (hle : start ≤ stop)
    (hr : Repeats blocks start stop) :
    checkRedContigBlocks blocks start stop = .ok ⟨true, true, blocks, start, stop⟩ := by
  obtain ⟨a, b, hf, ha, hb⟩ := hr
  unfold checkRedContigBlocks
  cases hlb : blocks.lowerBound? start with
  | none =>
    have hnone := OrdMap.lowerBound?_eq_none hlb
    have halt : a < start := by
      by_contra hge
      rw [hnone a (by omega)] at hf
      cases hf
    simp only [checkAboveAll]
    cases hlast : blocks.last? with
    | none =>
      rw [OrdMap.last?_eq_none hlast] at hf
      cases hf
    | some pq =>
      obtain ⟨p, q⟩ := pq
      obtain ⟨hp, hmax⟩ := OrdMap.last?_eq_some hlast
      have hap : a = p := by
        rcases lt_trichotomy a p with hlt | heq | hlt
        · have hps : p < start := by
            by_contra hge
            rw [hnone p (by omega)] at hp
            cases hp
          have := h.gap hf hp hlt
          omega
        · exact heq
        · rw [hmax a hlt] at hf
          cases hf
      subst hap
      rw [hf] at hp
      cases hp
      simp only [if_pos hb, if_pos ha]
  | some bc =>
    obtain ⟨b', c⟩ := bc
    obtain ⟨hb', hle', hmin⟩ := OrdMap.lowerBound?_eq_some hlb
    simp only
    by_cases heq : b' = start
    · subst heq
      have hab : a = b' := h.unique hf hb' ha (by omega) le_rfl (h.ordered hb')
      subst hab
      rw [hf] at hb'
      cases hb'
      rw [if_pos rfl, if_pos hb]
    · rw [if_neg heq, if_neg (by omega)]
      have hne : a ≠ start := by
        rintro rfl
        rw [hmin a le_rfl (by omega)] at hf
        cases hf
      cases hprev : blocks.prev? b' with
      | none =>
        rw [OrdMap.prev?_eq_none hprev a (by omega)] at hf
        cases hf
      | some pq =>
        obtain ⟨p, q⟩ := pq
        obtain ⟨hp, hpb, hmax⟩ := OrdMap.prev?_eq_some hprev
        have hap : a = p := by
          rcases lt_trichotomy a p with hlt | heq | hlt
          · have hps : p < start := by
              by_contra hge
              rw [hmin p (by omega) hpb] at hp
              cases hp
            have := h.gap hf hp hlt
            omega
          · exact heq
          · rw [hmax a hlt (by omega)] at hf
            cases hf
        subst hap
        rw [hf] at hp
        cases hp
        simp only [checkBetween]
        rw [if_neg (by omega), if_pos hb]

/-- The range becomes a block of its own. -/
private theorem absorbed_alone (hle : start ≤ stop) (hmax : stop + 1 < 2 ^ 64) (o : Bool)
    (hout : ∀ p q, blocks.find? p = some q → q + 1 < start ∨ stop + 1 < p)
    (hord : ∀ p q, blocks.find? p = some q → p ≤ q) :
    Absorbed blocks (blocks.insert start stop) start stop start stop o where
  first := le_rfl
  last := le_rfl
  bound := hmax
  find x := by
    rw [OrdMap.find?_insert]
    split_ifs with h₁ h₂
    · rfl
    · cases hx : blocks.find? x with
      | none => rfl
      | some q =>
        have := hout x q hx
        have := hord x q hx
        omega
    · rfl
  low p q hp hlt := by
    have := hout p q hp
    have := hord p q hp
    omega
  inside p q hp h₁ h₂ := by
    have := hout p q hp
    have := hord p q hp
    omega
  high p q hp hlt := by
    have := hout p q hp
    have := hord p q hp
    omega
  filled x h₁ h₂ := Or.inl ⟨h₁, h₂⟩
  apart _ a b hf := by
    have := hout a b hf
    omega

/-- The range extends the block below it. -/
private theorem absorbed_below (h : Decomposes blocks.find? S) {p q : ℕ} (o : Bool)
    (hmax : stop + 1 < 2 ^ 64) (hp : blocks.find? p = some q) (hps : p ≤ start)
    (hq : start ≤ q + 1) (hqs : q ≤ stop) (ho : o = false → q < start)
    (hout : ∀ x y, blocks.find? x = some y → p < x → stop + 1 < x) :
    Absorbed blocks (blocks.insert p stop) start stop p stop o where
  first := hps
  last := le_rfl
  bound := hmax
  find x := by
    rw [OrdMap.find?_insert]
    split_ifs with h₁ h₂
    · rfl
    · cases hx : blocks.find? x with
      | none => rfl
      | some y =>
        have := hout x y hx (by omega)
        omega
    · rfl
  low x y hx hlt := h.gap hx hp hlt
  inside x y hx h₁ h₂ := by
    rcases Nat.lt_or_ge p x with hlt | hge
    · have := hout x y hx hlt
      omega
    · obtain rfl : x = p := le_antisymm hge h₁
      rw [hp] at hx
      cases hx
      omega
  high x y hx hlt := by
    have := h.ordered hp
    exact hout x y hx (by omega)
  filled x h₁ h₂ := by
    by_cases hx : x ≤ q
    · exact Or.inr ⟨p, q, hp, h₁, hx⟩
    · exact Or.inl ⟨by omega, h₂⟩
  apart hov a b hf := by
    have hqs := ho hov
    rcases Nat.lt_or_ge p a with hlt | hge
    · have := hout a b hf hlt
      omega
    · rcases Nat.lt_or_ge a p with hlt | hge'
      · have := h.gap hf hp hlt
        have := h.ordered hp
        omega
      · obtain rfl : a = p := le_antisymm hge hge'
        rw [hp] at hf
        cases hf
        omega

/-- The range and the block above it become one block that ends at `d`. -/
private theorem absorbed_above (h : Decomposes blocks.find? S) {b c d : ℕ} (o : Bool)
    (hb : blocks.find? b = some c) (hsb : start < b)
    (hreach : b ≤ stop + 1) (hcd : c ≤ d) (hsd : stop ≤ d) (hd : d = c ∨ d = stop)
    (hmax : d + 1 < 2 ^ 64)
    (hlow : ∀ p q, blocks.find? p = some q → p < b → q + 1 < start)
    (hhigh : ∀ p q, blocks.find? p = some q → b < p → d + 1 < p)
    (ho : o = false → stop < b) :
    Absorbed blocks ((blocks.insert start d).erase b) start stop start d o where
  first := le_rfl
  last := hsd
  bound := hmax
  find x := by
    have hbc := h.ordered hb
    rw [OrdMap.find?_erase, OrdMap.find?_insert]
    split_ifs with h₁ h₂ h₃ h₄ h₅
    · omega
    · rfl
    · omega
    · rfl
    · cases hx : blocks.find? x with
      | none => rfl
      | some y =>
        rcases Nat.lt_or_ge x b with hlt | hge
        · have := hlow x y hx hlt
          have := h.ordered hx
          omega
        · have := hhigh x y hx (by omega)
          omega
    · rfl
  low x y hx hlt := by
    exact hlow x y hx (by omega)
  inside x y hx h₁ h₂ := by
    rcases lt_trichotomy x b with hlt | heq | hlt
    · have := hlow x y hx hlt
      have := h.ordered hx
      omega
    · subst heq
      rw [hb] at hx
      cases hx
      exact hcd
    · have := hhigh x y hx hlt
      omega
  high x y hx hlt := by
    have := h.ordered hb
    exact hhigh x y hx (by omega)
  filled x h₁ h₂ := by
    by_cases hx : x ≤ stop
    · exact Or.inl ⟨h₁, hx⟩
    · exact Or.inr ⟨b, c, hb, by omega, by omega⟩
  apart hov a y hf := by
    have hstop := ho hov
    rcases lt_trichotomy a b with hlt | heq | hlt
    · have := hlow a y hf hlt
      omega
    · omega
    · omega

/-- The range closes the gap between the block below it and the block above it. -/
private theorem absorbed_both (h : Decomposes blocks.find? S) {p q b c : ℕ} (o : Bool)
    (hp : blocks.find? p = some q) (hb : blocks.find? b = some c)
    (hpb : ∀ x, p < x → x < b → blocks.find? x = none) (hps : p ≤ start) (hq : start ≤ q + 1)
    (hsb : stop ≤ b) (hqb : start < b) (hreach : b ≤ stop + 1) (hmax : c + 1 < 2 ^ 64)
    (ho : o = false → q < start ∧ stop < b) :
    Absorbed blocks ((blocks.insert p c).erase b) start stop p c o where
  first := hps
  last := by
    have := h.ordered hb
    omega
  bound := hmax
  find x := by
    have hbc := h.ordered hb
    have hpq := h.ordered hp
    rw [OrdMap.find?_erase, OrdMap.find?_insert]
    split_ifs with h₁ h₂ h₃ h₄ h₅
    · omega
    · rfl
    · omega
    · rfl
    · rcases Nat.lt_or_ge x b with hlt | hge
      · exact hpb x (by omega) hlt
      · cases hx : blocks.find? x with
        | none => rfl
        | some y =>
          have := h.gap hb hx (by omega)
          omega
    · rfl
  low x y hx hlt := h.gap hx hp hlt
  inside x y hx h₁ h₂ := by
    have hbc := h.ordered hb
    rcases lt_trichotomy x b with hlt | heq | hlt
    · have := h.gap hx hb hlt
      omega
    · subst heq
      rw [hb] at hx
      cases hx
      exact le_rfl
    · have := h.gap hb hx hlt
      omega
  high x y hx hlt := by
    have hbc := h.ordered hb
    exact h.gap hb hx (by omega)
  filled x h₁ h₂ := by
    by_cases hx : x ≤ q
    · exact Or.inr ⟨p, q, hp, h₁, hx⟩
    · by_cases hx' : x ≤ stop
      · exact Or.inl ⟨by omega, hx'⟩
      · exact Or.inr ⟨b, c, hb, by omega, h₂⟩
  apart hov a y hf := by
    obtain ⟨hqs, hstop⟩ := ho hov
    rcases Nat.lt_or_ge p a with hlt | hge
    · rcases Nat.lt_or_ge a b with hlt' | hge'
      · rw [hpb a hlt hlt'] at hf
        cases hf
      · omega
    · rcases Nat.lt_or_ge a p with hlt | hge'
      · have := h.gap hf hp hlt
        have := h.ordered hp
        omega
      · obtain rfl : a = p := le_antisymm hge hge'
        rw [hp] at hf
        cases hf
        omega

/-- The answer of a check that absorbed the range. -/
def AnswersAbsorbed (blocks : OrdMap ℕ ℕ) (start stop : ℕ) (out : Except Fault ContigCheck) : Prop :=
  ∃ r, out = .ok r ∧ r.duplicate = false ∧
    Absorbed blocks r.blocks start stop r.contigStart r.contigStop r.overlap

private theorem answers {blocks' : OrdMap ℕ ℕ} {cs ct : ℕ} {o : Bool}
    (h : Absorbed blocks blocks' start stop cs ct o) :
    AnswersAbsorbed blocks start stop (.ok ⟨o, false, blocks', cs, ct⟩) := ⟨_, rfl, rfl, h⟩

theorem checkAboveAll_fresh (h : Decomposes blocks.find? S) (hle : start ≤ stop)
    (hmax : stop + 1 < 2 ^ 64) (hu : Unreceived blocks start)
    (hnone : ∀ i, start ≤ i → blocks.find? i = none) :
    AnswersAbsorbed blocks start stop (checkAboveAll blocks start stop) := by
  have hkey : ∀ p q, blocks.find? p = some q → p < start := by
    intro p q hp
    by_contra hge
    rw [hnone p (by omega)] at hp
    cases hp
  unfold checkAboveAll
  cases hlast : blocks.last? with
  | none =>
    refine answers (absorbed_alone hle hmax false ?_ fun p q => h.ordered)
    intro p q hp
    rw [OrdMap.last?_eq_none hlast] at hp
    cases hp
  | some pq =>
    obtain ⟨p, q⟩ := pq
    obtain ⟨hp, hlt⟩ := OrdMap.last?_eq_some hlast
    have hps := hkey p q hp
    have hqs : q < start := hu p q hp hps.le
    have habove : ∀ x y, blocks.find? x = some y → p < x → stop + 1 < x := by
      intro x y hx hpx
      rw [hlt x hpx] at hx
      cases hx
    simp only
    rw [if_neg (by omega), u64_of_lt (by omega)]
    by_cases hq : q + 1 = start
    · rw [if_pos (Or.inr hq)]
      exact answers (absorbed_below h _ hmax hp hps.le (by omega) (by omega) (fun _ => hqs) habove)
    · rw [if_neg (by omega)]
      refine answers (absorbed_alone hle hmax false ?_ fun p q => h.ordered)
      intro x y hx
      rcases Nat.lt_or_ge p x with hpx | hxp
      · exact Or.inr (habove x y hx hpx)
      · rcases Nat.lt_or_ge x p with hxp' | hpx'
        · have := h.gap hx hp hxp'
          omega
        · obtain rfl : x = p := le_antisymm hxp hpx'
          rw [hp] at hx
          cases hx
          omega

theorem checkBetween_fresh (h : Decomposes blocks.find? S) (hbd : ∀ x ∈ S, x + 1 < 2 ^ 64)
    (hle : start ≤ stop) (hmax : stop + 1 < 2 ^ 64) {p q b c : ℕ}
    (hp : blocks.find? p = some q) (hb : blocks.find? b = some c) (hps : p < start)
    (hqs : q < start) (hsb : start < b) (hstop : stop ≤ b)
    (hpb : ∀ x, p < x → x < b → blocks.find? x = none) :
    AnswersAbsorbed blocks start stop (checkBetween blocks start stop p q b c) := by
  have hc : c + 1 < 2 ^ 64 := hbd c (h.mem hb (h.ordered hb) le_rfl)
  have hlow : ∀ x y, blocks.find? x = some y → x < b → y + 1 < start ∨ x = p := by
    intro x y hx hxb
    rcases lt_trichotomy x p with hlt | heq | hlt
    · have := h.gap hx hp hlt
      exact Or.inl (by omega)
    · exact Or.inr heq
    · rw [hpb x hlt hxb] at hx
      cases hx
  have hreach : reaches stop b ↔ b ≤ stop + 1 := by
    unfold reaches
    rw [u64_of_lt hmax]
    omega
  unfold checkBetween
  rw [if_neg (by omega), if_neg (by omega), if_neg (by omega), u64_of_lt (by omega)]
  by_cases hq : q + 1 = start
  · rw [if_pos hq]
    by_cases hr : reaches stop b
    · rw [if_pos hr]
      exact answers (absorbed_both h _ hp hb hpb hps.le (by omega) hstop hsb (hreach.mp hr) hc
        fun ho => ⟨hqs, lt_of_le_of_ne hstop (of_decide_eq_false ho)⟩)
    · rw [if_neg hr]
      refine answers (absorbed_below h _ hmax hp hps.le (by omega) (by omega) (fun _ => hqs)
        fun x y hx hpx => ?_)
      have hbx : b ≤ x := by
        by_contra hlt
        rw [hpb x hpx (by omega)] at hx
        cases hx
      rw [hreach] at hr
      omega
  · rw [if_neg hq]
    by_cases hr : reaches stop b
    · rw [if_pos hr]
      refine answers (absorbed_above h _ hb hsb (hreach.mp hr) le_rfl
        (hstop.trans (h.ordered hb)) (Or.inl rfl) hc ?_ (fun x y hx hbx => h.gap hb hx hbx)
        fun ho => lt_of_le_of_ne hstop (of_decide_eq_false ho))
      intro x y hx hxb
      rcases hlow x y hx hxb with hy | rfl
      · exact hy
      · rw [hp] at hx
        cases hx
        omega
    · rw [if_neg hr]
      rw [hreach] at hr
      refine answers (absorbed_alone hle hmax _ ?_ fun p q => h.ordered)
      intro x y hx
      rcases Nat.lt_or_ge x b with hxb | hbx
      · rcases hlow x y hx hxb with hy | rfl
        · exact Or.inl hy
        · rw [hp] at hx
          cases hx
          exact Or.inl (by omega)
      · exact Or.inr (by omega)

theorem checkBelowAll_fresh (h : Decomposes blocks.find? S) (hbd : ∀ x ∈ S, x + 1 < 2 ^ 64)
    (hle : start ≤ stop) (hmax : stop + 1 < 2 ^ 64) {b c : ℕ} (hb : blocks.find? b = some c)
    (hsb : start < b) (hlow : ∀ p q, blocks.find? p = some q → b ≤ p)
    (hone : b < stop → ∀ p q, blocks.find? p = some q → b < p → stop + 1 < p) :
    AnswersAbsorbed blocks start stop (.ok (checkBelowAll blocks start stop b c)) := by
  have hc : c + 1 < 2 ^ 64 := hbd c (h.mem hb (h.ordered hb) le_rfl)
  have hbc := h.ordered hb
  have hlow' : ∀ p q, blocks.find? p = some q → p < b → q + 1 < start := fun p q hp hlt => by
    have := hlow p q hp
    omega
  unfold checkBelowAll
  by_cases hbs : b ≤ stop
  · rw [if_pos hbs]
    by_cases hsc : stop < c
    · rw [if_pos hsc]
      exact answers (absorbed_above h _ hb hsb (by omega) le_rfl hsc.le (Or.inl rfl) hc hlow'
        (fun x y hx hbx => h.gap hb hx hbx) (by simp))
    · rw [if_neg hsc]
      refine answers (absorbed_above h _ hb hsb (by omega) (by omega) le_rfl (Or.inr rfl) hmax
        hlow' ?_ (by simp))
      intro x y hx hbx
      rcases Nat.lt_or_ge b stop with hlt | hge
      · exact hone hlt x y hx hbx
      · have := h.gap hb hx hbx
        omega
  · rw [if_neg hbs]
    by_cases hr : reaches stop b
    · have hsb' : stop + 1 = b := by
        unfold reaches at hr
        rw [u64_of_lt hmax] at hr
        omega
      rw [if_pos hr, if_pos (by omega)]
      exact answers (absorbed_above h _ hb hsb (by omega) le_rfl (by omega) (Or.inl rfl) hc hlow'
        (fun x y hx hbx => h.gap hb hx hbx) fun _ => by omega)
    · rw [if_neg hr]
      have hsb' : stop + 1 < b := by
        unfold reaches at hr
        rw [u64_of_lt hmax] at hr
        omega
      refine answers (absorbed_alone hle hmax _ ?_ fun p q => h.ordered)
      intro x y hx
      have := hlow x y hx
      exact Or.inr (by omega)

/-- A range that starts at a new byte and enters at most one block is absorbed. -/
theorem checkRedContigBlocks_fresh (h : Decomposes blocks.find? S)
    (hbd : ∀ x ∈ S, x + 1 < 2 ^ 64) (hle : start ≤ stop) (hmax : stop + 1 < 2 ^ 64)
    (hu : Unreceived blocks start) (he : EntersOne blocks start stop) :
    AnswersAbsorbed blocks start stop (checkRedContigBlocks blocks start stop) := by
  unfold checkRedContigBlocks
  cases hlb : blocks.lowerBound? start with
  | none => exact checkAboveAll_fresh h hle hmax hu (OrdMap.lowerBound?_eq_none hlb)
  | some bc =>
    obtain ⟨b, c⟩ := bc
    obtain ⟨hb, hsb, hmin⟩ := OrdMap.lowerBound?_eq_some hlb
    have hne : b ≠ start := by
      rintro rfl
      have := hu b c hb le_rfl
      have := h.ordered hb
      omega
    simp only
    rw [if_neg hne, if_neg (by omega)]
    cases hprev : blocks.prev? b with
    | none =>
      have hbelow := OrdMap.prev?_eq_none hprev
      refine checkBelowAll_fresh h hbd hle hmax hb (by omega) ?_ fun hlt => ?_
      · intro p q hp
        by_contra hge
        rw [hbelow p (by omega)] at hp
        cases hp
      · exact (he b c hb (by omega) hlt).2
    | some pq =>
      obtain ⟨p, q⟩ := pq
      obtain ⟨hp, hpb, hgap⟩ := OrdMap.prev?_eq_some hprev
      have hps : p < start := by
        by_contra hge
        rw [hmin p (by omega) hpb] at hp
        cases hp
      have hstop : stop ≤ b := by
        by_contra hlt
        have := (he b c hb (by omega) (by omega)).1 p q hp
        omega
      exact checkBetween_fresh h hbd hle hmax hp hb hps (hu p q hp hps.le) (by omega) hstop hgap

/-- A range that extends a block is absorbed into it. -/
theorem checkRedContigBlocks_extends (h : Decomposes blocks.find? S)
    (hbd : ∀ x ∈ S, x + 1 < 2 ^ 64) (hmax : stop + 1 < 2 ^ 64) (he : Extends blocks start stop) :
    AnswersAbsorbed blocks start stop (checkRedContigBlocks blocks start stop) := by
  obtain ⟨p, q, hp, hps, hsq, hqs, hstop, hone⟩ := he
  have hkey : ∀ x y, blocks.find? x = some y → p < x → start < x := by
    intro x y hx hpx
    have := h.gap hp hx hpx
    omega
  unfold checkRedContigBlocks
  cases hlb : blocks.lowerBound? start with
  | none =>
    have hnone := OrdMap.lowerBound?_eq_none hlb
    have hmost : ∀ x, p < x → blocks.find? x = none := by
      intro x hpx
      cases hx : blocks.find? x with
      | none => rfl
      | some y => rw [← hx, hnone x (hkey x y hx hpx).le]
    have hqe : q = start := by
      rcases hone with hqe | ⟨b, c, hb, hpb⟩
      · exact hqe
      · rw [hmost b hpb] at hb
        cases hb
    simp only [checkAboveAll]
    cases hlast : blocks.last? with
    | none =>
      rw [OrdMap.last?_eq_none hlast] at hp
      cases hp
    | some pq =>
      obtain ⟨p', q'⟩ := pq
      obtain ⟨hp', hmax'⟩ := OrdMap.last?_eq_some hlast
      obtain rfl : p' = p := by
        rcases lt_trichotomy p' p with hlt | heq | hlt
        · rw [hmax' p hlt] at hp
          cases hp
        · exact heq
        · rw [hmost p' hlt] at hp'
          cases hp'
      rw [hp] at hp'
      cases hp'
      simp only
      rw [if_neg (by omega), if_pos (Or.inl hqe)]
      refine answers (absorbed_below h _ hmax hp hps.le (by omega) hqs.le (by simp [hqe]) ?_)
      intro x y hx hpx
      rw [hmost x hpx] at hx
      cases hx
  | some bc =>
    obtain ⟨b, c⟩ := bc
    obtain ⟨hb, hsb, hmin⟩ := OrdMap.lowerBound?_eq_some hlb
    have hpb : p < b := by omega
    have hsb' := hkey b c hb hpb
    have hc : c + 1 < 2 ^ 64 := hbd c (h.mem hb (h.ordered hb) le_rfl)
    simp only
    rw [if_neg (by omega), if_neg (by omega)]
    have hbetween : ∀ x, p < x → x < b → blocks.find? x = none := by
      intro x hpx hxb
      cases hx : blocks.find? x with
      | none => rfl
      | some y => rw [← hx, hmin x (hkey x y hx hpx).le hxb]
    cases hprev : blocks.prev? b with
    | none =>
      rw [OrdMap.prev?_eq_none hprev p hpb] at hp
      cases hp
    | some pq =>
      obtain ⟨p', q'⟩ := pq
      obtain ⟨hp', hpb', hgap⟩ := OrdMap.prev?_eq_some hprev
      obtain rfl : p' = p := by
        rcases lt_trichotomy p' p with hlt | heq | hlt
        · rw [hgap p hlt hpb] at hp
          cases hp
        · exact heq
        · rw [hbetween p' hlt hpb'] at hp'
          cases hp'
      rw [hp] at hp'
      cases hp'
      simp only [checkBetween]
      rw [if_neg (by omega), if_neg (by omega), if_pos hsq, if_pos hqs]
      have hstopb := hstop b c hb hpb
      have hreach : reaches stop b ↔ b ≤ stop + 1 := by
        unfold reaches
        rw [u64_of_lt hmax]
        omega
      by_cases hr : reaches stop b
      · rw [if_pos hr]
        exact answers (absorbed_both h _ hp hb hbetween hps.le (by omega) hstopb hsb'
          (hreach.mp hr) hc (by simp))
      · rw [if_neg hr]
        refine answers (absorbed_below h _ hmax hp hps.le (by omega) hqs.le (by simp) ?_)
        intro x y hx hpx
        have hbx : b ≤ x := by
          by_contra hlt
          rw [hbetween x hpx (by omega)] at hx
          cases hx
        rw [hreach] at hr
        omega

/-- A mergeable range is absorbed. -/
theorem checkRedContigBlocks_mergeable (h : Decomposes blocks.find? S)
    (hbd : ∀ x ∈ S, x + 1 < 2 ^ 64) (hle : start ≤ stop) (hmax : stop + 1 < 2 ^ 64)
    (hm : Mergeable blocks start stop) :
    AnswersAbsorbed blocks start stop (checkRedContigBlocks blocks start stop) := by
  rcases hm with ⟨hu, he⟩ | he
  · exact checkRedContigBlocks_fresh h hbd hle hmax hu he
  · exact checkRedContigBlocks_extends h hbd hmax he

/-! ## The other direction -/

theorem checkAboveAll_canonical {T : Set ℕ} {r : ContigCheck} (h : Decomposes blocks.find? S)
    (hbd : ∀ x ∈ S, x + 1 < 2 ^ 64) (hnone : ∀ i, start ≤ i → blocks.find? i = none)
    (hr : checkAboveAll blocks start stop = .ok r) (hT : Decomposes r.blocks.find? T) :
    Repeats blocks start stop ∨ Mergeable blocks start stop := by
  have hkey : ∀ p q, blocks.find? p = some q → p < start := by
    intro p q hp
    by_contra hge
    rw [hnone p (by omega)] at hp
    cases hp
  have henter : EntersOne blocks start stop := by
    intro b c hb hsb
    have := hkey b c hb
    omega
  unfold checkAboveAll at hr
  cases hlast : blocks.last? with
  | none =>
    refine Or.inr (Or.inl ⟨fun a b ha => ?_, henter⟩)
    rw [OrdMap.last?_eq_none hlast] at ha
    cases ha
  | some pq =>
    obtain ⟨p, q⟩ := pq
    obtain ⟨hp, hmost⟩ := OrdMap.last?_eq_some hlast
    have hps := hkey p q hp
    have hfresh : q < start → Unreceived blocks start := by
      intro hq a b ha _
      rcases lt_trichotomy a p with hlt | heq | hlt
      · have := h.gap ha hp hlt
        omega
      · subst heq
        rw [hp] at ha
        cases ha
        exact hq
      · rw [hmost a hlt] at ha
        cases ha
    rw [hlast] at hr
    simp only at hr
    rw [u64_of_lt (hbd q (h.mem hp (h.ordered hp) le_rfl))] at hr
    split_ifs at hr with h₁ h₂ h₃
    · exact Or.inl ⟨p, q, hp, h₂, h₁⟩
    · rcases h₃ with h₃ | h₃
      · refine Or.inr (Or.inr ⟨p, q, hp, hps, by omega, by omega, fun b c hb hpb => ?_, Or.inl h₃⟩)
        rw [hmost b hpb] at hb
        cases hb
      · exact Or.inr (Or.inl ⟨hfresh (by omega), henter⟩)
    · by_cases hq : q < start
      · exact Or.inr (Or.inl ⟨hfresh hq, henter⟩)
      · -- the old block and the new one overlap
        cases hr
        have hq : (blocks.insert start stop).find? p = some q := by
          rw [OrdMap.find?_insert, if_neg (by omega), hp]
        have := hT.gap hq (d := stop) (by simp) hps
        omega

theorem checkBetween_canonical {T : Set ℕ} {r : ContigCheck} (h : Decomposes blocks.find? S)
    (hbd : ∀ x ∈ S, x + 1 < 2 ^ 64) (hmax : stop + 1 < 2 ^ 64) {p q b c : ℕ}
    (hp : blocks.find? p = some q) (hb : blocks.find? b = some c) (hps : p < start)
    (hsb : start < b) (hpb : ∀ x, p < x → x < b → blocks.find? x = none)
    (hr : checkBetween blocks start stop p q b c = .ok r) (hT : Decomposes r.blocks.find? T) :
    Repeats blocks start stop ∨ Mergeable blocks start stop := by
  have habove : ∀ x y, blocks.find? x = some y → p < x → b ≤ x := by
    intro x y hx hpx
    by_contra hlt
    rw [hpb x hpx (by omega)] at hx
    cases hx
  -- past the start of the block above, a block would be left inside the new one
  have hsurvive : ∀ x ≤ start, Decomposes (blocks.insert x stop).find? T → stop + 1 < b := by
    intro x hx hT
    have hb' : (blocks.insert x stop).find? b = some c := by
      rw [OrdMap.find?_insert, if_neg (by omega), hb]
    exact hT.gap (a := x) (by simp) hb' (by omega)
  have hreach : reaches stop b → stop ≤ b := by
    unfold reaches
    rw [u64_of_lt hmax]
    omega
  have hstop : stop ≤ b → q < stop →
      Repeats blocks start stop ∨ Mergeable blocks start stop := by
    intro hstop hqs
    refine Or.inr ?_
    by_cases hsq : start ≤ q
    · exact Or.inr ⟨p, q, hp, hps, hsq, hqs,
        fun x y hx hpx => hstop.trans (habove x y hx hpx), Or.inr ⟨b, c, hb, by omega⟩⟩
    · refine Or.inl ⟨fun x y hx hxs => ?_, fun x y hx hsx hxstop => ?_⟩
      · rcases lt_trichotomy x p with hlt | heq | hlt
        · have := h.gap hx hp hlt
          omega
        · subst heq
          rw [hp] at hx
          cases hx
          omega
        · have := habove x y hx hlt
          omega
      · have := habove x y hx (by omega)
        omega
  unfold checkBetween at hr
  rw [if_neg (by omega), u64_of_lt (hbd q (h.mem hp (h.ordered hp) le_rfl))] at hr
  split_ifs at hr with h₁ h₂ h₃ h₄ h₅ h₆ h₇
  · exact Or.inl ⟨p, q, hp, hps.le, h₁⟩
  · exact hstop (hreach h₄) h₃
  · cases hr
    have := hsurvive p hps.le hT
    exact hstop (by omega) h₃
  · omega
  · exact hstop (hreach h₆) (by omega)
  · cases hr
    have := hsurvive p hps.le hT
    exact hstop (by omega) (by omega)
  · exact hstop (hreach h₇) (by omega)
  · cases hr
    have := hsurvive start le_rfl hT
    exact hstop (by omega) (by omega)

theorem checkBelowAll_canonical {T : Set ℕ} {b c : ℕ} (hsb : start < b)
    (hlow : ∀ p q, blocks.find? p = some q → b ≤ p)
    (hT : Decomposes (checkBelowAll blocks start stop b c).blocks.find? T) :
    Mergeable blocks start stop := by
  refine Or.inl ⟨fun x y hx hxs => ?_, fun x y hx hsx hxstop => ⟨fun p q hp => ?_, ?_⟩⟩
  · have := hlow x y hx
    omega
  · have := hlow p q hp
    omega
  · intro b' c' hb' hlt
    have hbx := hlow x y hx
    have hfar : ∀ d, Decomposes ((blocks.insert start d).erase b).find? T → d + 1 < b' := by
      intro d hd
      refine hd.gap (a := start) (d := c') ?_ ?_ (by omega)
      · rw [OrdMap.find?_erase, if_neg (by omega), OrdMap.find?_insert, if_pos rfl]
      · rw [OrdMap.find?_erase, if_neg (by omega), OrdMap.find?_insert, if_neg (by omega), hb']
    unfold checkBelowAll at hT
    rw [if_pos (by omega)] at hT
    split_ifs at hT with hsc
    · have := hfar c hT
      omega
    · exact hfar stop hT

/-- The check keeps the map canonical on exactly the repeated and the mergeable ranges. -/
theorem checkRedContigBlocks_canonical_iff (h : Decomposes blocks.find? S)
    (hbd : ∀ x ∈ S, x + 1 < 2 ^ 64) (hle : start ≤ stop) (hmax : stop + 1 < 2 ^ 64) :
    (∃ r T, checkRedContigBlocks blocks start stop = .ok r ∧ Decomposes r.blocks.find? T) ↔
      Repeats blocks start stop ∨ Mergeable blocks start stop := by
  constructor
  · rintro ⟨r, T, hr, hT⟩
    unfold checkRedContigBlocks at hr
    cases hlb : blocks.lowerBound? start with
    | none =>
      rw [hlb] at hr
      exact checkAboveAll_canonical h hbd (OrdMap.lowerBound?_eq_none hlb) hr hT
    | some bc =>
      obtain ⟨b, c⟩ := bc
      obtain ⟨hb, hsb, hmin⟩ := OrdMap.lowerBound?_eq_some hlb
      rw [hlb] at hr
      simp only at hr
      split_ifs at hr with h₁ h₂ h₃
      · exact Or.inl ⟨b, c, hb, h₁.le, h₂⟩
      · cases hprev : blocks.prev? b with
        | none =>
          rw [hprev] at hr
          cases hr
          refine Or.inr (checkBelowAll_canonical (by omega) ?_ hT)
          intro p q hp
          by_contra hge
          rw [OrdMap.prev?_eq_none hprev p (by omega)] at hp
          cases hp
        | some pq =>
          obtain ⟨p, q⟩ := pq
          obtain ⟨hp, hpb, hgap⟩ := OrdMap.prev?_eq_some hprev
          have hps : p < start := by
            by_contra hge
            rw [hmin p (by omega) hpb] at hp
            cases hp
          rw [hprev] at hr
          exact checkBetween_canonical h hbd hmax hp hb hps (by omega) hgap hr hT
  · rintro (hr | hm)
    · exact ⟨_, S, checkRedContigBlocks_repeats h hle hr, h⟩
    · obtain ⟨r, hr, -, ha⟩ := checkRedContigBlocks_mergeable h hbd hle hmax hm
      exact ⟨r, {x | x ∈ S ∨ (r.contigStart ≤ x ∧ x ≤ r.contigStop)}, hr,
        h.replace (ha.first.trans (hle.trans ha.last)) ha.low ha.inside ha.high ha.find
          fun _ => Iff.rfl⟩

/-- Two blocks with a gap of five bytes. -/
def gapBlocks : OrdMap ℕ ℕ := (OrdMap.empty.insert 0 4).insert 10 14

/-- The range of the gap joins the two blocks. -/
theorem checkRedContigBlocks_canonical_iff_joins :
    ∃ r T, checkRedContigBlocks gapBlocks 5 9 = .ok r ∧ Decomposes r.blocks.find? T := by
  have hfind : ∀ a b, gapBlocks.find? a = some b → (a = 0 ∧ b = 4) ∨ (a = 10 ∧ b = 14) := by
    intro a b hab
    simp only [gapBlocks, OrdMap.find?_insert, OrdMap.find?_empty] at hab
    split_ifs at hab with h₁ h₂
    · cases hab
      exact Or.inr ⟨h₁, rfl⟩
    · cases hab
      exact Or.inl ⟨h₂, rfl⟩
  have hblocks : Decomposes gapBlocks.find?
      {x | ∃ a b, gapBlocks.find? a = some b ∧ a ≤ x ∧ x ≤ b} := by
    refine ⟨?_, ?_, fun _ => Iff.rfl⟩
    · intro a b hab
      rcases hfind a b hab with ⟨rfl, rfl⟩ | ⟨rfl, rfl⟩ <;> decide
    · intro a b c d hab hcd hlt
      rcases hfind a b hab with ⟨rfl, rfl⟩ | ⟨rfl, rfl⟩ <;>
        rcases hfind c d hcd with ⟨rfl, rfl⟩ | ⟨rfl, rfl⟩ <;> omega
  refine (checkRedContigBlocks_canonical_iff hblocks ?_ (by decide) (by decide)).mpr (by decide)
  rintro x ⟨a, b, hab, -, hxb⟩
  rcases hfind a b hab with ⟨rfl, rfl⟩ | ⟨rfl, rfl⟩ <;> omega

end Dtnme.Ltp
