import Dtnme.Library.Decimal
import Dtnme.Library.Word

/-! # `strtoull`

The number at the front of a text: blanks, a sign, and the digits of a base. Base 0 takes the base
from the digits, 16 behind `0x` if a digit follows, 8 behind another 0, and 10 otherwise. Characters
are given by their codes. The reader is irreducible, as unification must not compute with its bound.
-/

namespace Dtnme.Library.Strtoull

def isSpace (c : ℕ) : Bool := c = 32 || (9 ≤ c && c ≤ 13)

/-- The value of a digit, of letters in both cases; 36 if it is none. -/
def digitValue (c : ℕ) : ℕ :=
  if 48 ≤ c ∧ c ≤ 57 then c - 48
  else if 65 ≤ c ∧ c ≤ 90 then c - 65 + 10
  else if 97 ≤ c ∧ c ≤ 122 then c - 97 + 10
  else 36

section

variable {α : Type*} (code : α → ℕ)

def isDigitOf (base : ℕ) (c : α) : Bool := digitValue (code c) < base

/-- The value of digits. -/
def numeral (base : ℕ) (l : List α) : ℕ := l.foldl (fun v c => v * base + digitValue (code c)) 0

/-- The number that the digits in front make, and how many they are. -/
def scan (base : ℕ) (l : List α) : ℕ × ℕ :=
  let digits := l.takeWhile (isDigitOf code base)
  (numeral code base digits, digits.length)

/-- The base of a number, and the length of its prefix. -/
def radix (l : List α) : ℕ × ℕ :=
  match l.map code with
  | 48 :: c :: d :: _ => if (c = 120 || c = 88) && digitValue d < 16 then (16, 2) else (8, 0)
  | 48 :: _ => (8, 0)
  | _ => (10, 0)

/-- A number without its sign, and the characters that it takes. -/
def magnitude (base : ℕ) (l : List α) : ℕ × ℕ :=
  let (base, skipped) := if base = 0 then radix code l else (base, 0)
  let (v, used) := scan code base (l.drop skipped)
  (v, skipped + used)

/-- The characters of a sign. -/
def signLength (l : List α) : ℕ :=
  match l with
  | c :: _ => if code c = 43 || code c = 45 then 1 else 0
  | [] => 0

/-- The value and the number of characters used, none if there are no digits. A value that is too large
becomes the largest one, another one is negated behind a minus sign. -/
@[irreducible] def strtoull (base : ℕ) (s : List α) : ℕ × ℕ :=
  let spaces := (s.takeWhile (fun c => isSpace (code c))).length
  let rest := s.drop spaces
  let sign := signLength code rest
  let (v, used) := magnitude code base (rest.drop sign)
  if used = 0 then (0, 0)
  else
    let v := if 2 ^ 64 ≤ v then 2 ^ 64 - 1 else if rest.head?.map code = some 45 then u64Sub 0 v else v
    (v, spaces + sign + used)

variable {code}

theorem strtoull_lt (base : ℕ) (s : List α) : (strtoull code base s).1 < 2 ^ 64 := by
  unfold strtoull
  dsimp only
  split_ifs with hd hbig hneg
  · norm_num
  · norm_num
  · unfold u64Sub
    exact u64_lt _
  · exact Nat.lt_of_not_le hbig

theorem isDigitOf_ten {c : α} : isDigitOf code 10 c = (48 ≤ code c && code c ≤ 57) := by
  rw [isDigitOf, digitValue, ← Bool.decide_and]
  congr 1
  apply propext
  split_ifs <;> omega

theorem magnitude_ten (l : List α) : magnitude code 10 l = scan code 10 l := by
  rw [magnitude, if_neg (by norm_num)]
  simp

/-- Digits behind blanks, with nothing behind them. -/
theorem strtoull_blanks {base : ℕ} {spaces l : List α}
    (hspaces : ∀ c ∈ spaces, isSpace (code c) = true) {c : α} (hc : l.head? = some c)
    (hspace : isSpace (code c) = false) (hsign : code c ≠ 43 ∧ code c ≠ 45)
    (hused : (magnitude code base l).2 ≠ 0) (hlt : (magnitude code base l).1 < 2 ^ 64) :
    strtoull code base (spaces ++ l) =
      ((magnitude code base l).1, spaces.length + (magnitude code base l).2) := by
  have htake : (spaces ++ l).takeWhile (fun c => isSpace (code c)) = spaces :=
    takeWhile_span hspaces (by simpa [hc] using hspace)
  obtain ⟨l, rfl⟩ : ∃ l', l = c :: l' := by
    cases l with
    | nil => cases hc
    | cons d l => exact ⟨l, by rw [Option.some.inj hc]⟩
  unfold strtoull
  simp only [htake, List.drop_left, signLength, hsign, decide_false, Bool.or_false, Bool.false_eq_true, if_false,
    List.drop_zero, if_neg hused, if_neg (Nat.not_le_of_lt hlt), List.head?_cons, Option.map_some,
    Option.some.injEq, Nat.add_zero]

end

end Dtnme.Library.Strtoull
