import Shardb.Config

/-!
# Numerals

What `strtoul` takes in full when it finds out the base by itself: blanks, a sign,
a prefix and digits (`Numeral`). Apart from these, a loop that only asks for `errno`
and for the end of the text lets the empty text pass (`taken_iff`).
-/

namespace Shardb.Numerals
open Shardb.Bytes (Text)
open Shardb.Config
open Shardb.Handlers (isspace)

/-- Digits of a base, one at least. -/
structure Digits (radix : Nat) (digits : Text) : Prop where
  some : digits ≠ []
  small : ∀ c ∈ digits, digit c < radix

/-- The number that they stand for. -/
def positional (radix : Nat) (digits : Text) : Nat := digits.foldl (fun n c => n * radix + digit c) 0

/-- Digits behind the prefix of their base. The 0 of an octal number is also its first digit. -/
inductive Magnitude : Text → Nat → Prop
  | decimal {digits : Text} (ten : Digits 10 digits) (plain : digits.head? ≠ some 48) :
      Magnitude digits (positional 10 digits)
  | octal {digits : Text} (eight : Digits 8 digits) (zero : digits.head? = some 48) :
      Magnitude digits (positional 8 digits)
  | hex {x : UInt8} {digits : Text} (mark : x = 120 ∨ x = 88) (sixteen : Digits 16 digits) :
      Magnitude (48 :: x :: digits) (positional 16 digits)

/-- A numeral and its number, of 64 bits: a minus sign turns it around. -/
inductive Numeral : Text → Nat → Prop
  | plain {blanks text : Text} {n : Nat} (blank : ∀ c ∈ blanks, isspace c = true) (magnitude : Magnitude text n)
      (bits : n < 2 ^ 64) : Numeral (blanks ++ text) n
  | plus {blanks text : Text} {n : Nat} (blank : ∀ c ∈ blanks, isspace c = true) (magnitude : Magnitude text n)
      (bits : n < 2 ^ 64) : Numeral (blanks ++ 43 :: text) n
  | minus {blanks text : Text} {n : Nat} (blank : ∀ c ∈ blanks, isspace c = true) (magnitude : Magnitude text n)
      (bits : n < 2 ^ 64) : Numeral (blanks ++ 45 :: text) ((2 ^ 64 - n) % 2 ^ 64)

/-! ### The parts that `strtoul` reads -/

/-- What stands behind a sign. -/
def signless (text : Text) : Text := if text.head? = some 45 ∨ text.head? = some 43 then text.drop 1 else text

/-- The prefix of base 16, with a digit behind it. -/
def Hex (text : Text) : Prop :=
  text.head? = some 48 ∧ (text[1]? = some 120 ∨ text[1]? = some 88) ∧ (text[2]?.map digit).getD 36 < 16

instance (text : Text) : Decidable (Hex text) := inferInstanceAs (Decidable (_ ∧ _))

def radix (text : Text) : Nat := if Hex text then 16 else if text.head? = some 48 then 8 else 10

/-- What stands behind the prefix. -/
def unprefixed (text : Text) : Text := if Hex text then text.drop 2 else text

/-- The digits that are read. -/
def digitsOf (text : Text) : Text := (unprefixed text).takeWhile (digit · < radix text)

private theorem strtoul_eq (text : Text) :
    strtoul text 0 =
      let blank := text.dropWhile isspace
      let number := signless blank
      if digitsOf number = [] then ⟨0, text, false⟩
      else if 2 ^ 64 ≤ positional (radix number) (digitsOf number) then
        ⟨2 ^ 64 - 1, (unprefixed number).drop (digitsOf number).length, true⟩
      else ⟨if blank.head? = some 45 then (2 ^ 64 - positional (radix number) (digitsOf number)) % 2 ^ 64
          else positional (radix number) (digitsOf number),
        (unprefixed number).drop (digitsOf number).length, false⟩ := by
  simp [strtoul, signless, digitsOf, unprefixed, radix, Hex, positional]

private theorem digitsOf_whole {text : Text} :
    (unprefixed text).drop (digitsOf text).length = [] ↔ digitsOf text = unprefixed text := by
  rw [List.drop_eq_nil_iff]
  exact ⟨(List.takeWhile_prefix _).eq_of_length_le, fun same => by rw [same]⟩

private theorem digitsOf_full {text : Text} :
    (digitsOf text ≠ [] ∧ (unprefixed text).drop (digitsOf text).length = []) ↔ Digits (radix text) (unprefixed text) := by
  rw [digitsOf_whole]
  constructor
  · rintro ⟨some, same⟩
    refine ⟨same ▸ some, fun c member => ?_⟩
    rw [← same] at member
    simpa using List.mem_takeWhile_imp member
  · rintro ⟨some, small⟩
    have same : digitsOf text = unprefixed text := List.takeWhile_eq_self_iff.mpr (by simpa using small)
    exact ⟨same ▸ some, same⟩

/-! ### Numerals are what is read in full -/

private theorem digit_plain {c : UInt8} (small : digit c < 16) : isspace c = false ∧ c ≠ 45 ∧ c ≠ 43 := by
  have above : (48 : UInt8) ≤ c := by
    unfold digit at small
    split_ifs at small with ten lower upper
    · exact ten.1
    · exact UInt8.le_trans (by decide) lower.1
    · exact UInt8.le_trans (by decide) upper.1
    · omega
  have apart : ∀ d : UInt8, d < 48 → c ≠ d := by
    rintro d below rfl
    exact absurd above (UInt8.not_le.mpr below)
  refine ⟨?_, apart 45 (by decide), apart 43 (by decide)⟩
  have large : ¬ c ≤ 13 := fun low => absurd (UInt8.le_trans above low) (by decide)
  simp [isspace, apart 32 (by decide), large]

private theorem Magnitude.first {text : Text} {n : Nat} (magnitude : Magnitude text n) :
    ∃ c rest, text = c :: rest ∧ digit c < 16 := by
  cases magnitude with
  | decimal ten plain =>
    obtain ⟨c, rest, rfl⟩ := List.exists_cons_of_ne_nil ten.some
    exact ⟨c, rest, rfl, (ten.small c List.mem_cons_self).trans (by omega)⟩
  | octal eight zero =>
    obtain ⟨c, rest, rfl⟩ := List.exists_cons_of_ne_nil eight.some
    exact ⟨c, rest, rfl, (eight.small c List.mem_cons_self).trans (by omega)⟩
  | hex mark sixteen => exact ⟨48, _, rfl, by decide⟩

/-- The prefix that is looked for is that of the magnitude. -/
theorem magnitude_iff {text : Text} {n : Nat} :
    Magnitude text n ↔ Digits (radix text) (unprefixed text) ∧ n = positional (radix text) (unprefixed text) := by
  constructor
  · intro magnitude
    cases magnitude with
    | decimal ten plain =>
      have not_hex : ¬ Hex text := fun hex => plain hex.1
      simp [radix, unprefixed, not_hex, plain, ten]
    | octal eight zero =>
      have not_hex : ¬ Hex text := by
        rintro ⟨-, mark, -⟩
        have large : ∀ x, text[1]? = some x → digit x < 8 := fun x at_x => eight.small x (List.mem_of_getElem? at_x)
        rcases mark with mark | mark
        · exact absurd (large _ mark) (by decide)
        · exact absurd (large _ mark) (by decide)
      simp [radix, unprefixed, not_hex, zero, eight]
    | @hex x digits mark sixteen =>
      obtain ⟨d, rest, rfl⟩ := List.exists_cons_of_ne_nil sixteen.some
      have hex : Hex (48 :: x :: d :: rest) := ⟨rfl, by simpa using mark, sixteen.small d List.mem_cons_self⟩
      simp [radix, unprefixed, hex, sixteen]
  · rintro ⟨digits, rfl⟩
    by_cases hex : Hex text
    · simp only [radix, unprefixed, if_pos hex] at digits ⊢
      obtain ⟨zero, mark, -⟩ := hex
      rcases text with _ | ⟨c, _ | ⟨x, rest⟩⟩
      · cases zero
      · simp at mark
      · cases zero
        exact .hex (by simpa using mark) digits
    · by_cases zero : text.head? = some 48
      · simp only [radix, unprefixed, if_neg hex, if_pos zero] at digits ⊢
        exact .octal digits zero
      · simp only [radix, unprefixed, if_neg hex, if_neg zero] at digits ⊢
        exact .decimal digits zero

/-- The blanks and the sign that are looked for are those of the numeral. -/
theorem numeral_magnitude {text : Text} {v : Nat} :
    Numeral text v ↔ ∃ n, Magnitude (signless (text.dropWhile isspace)) n ∧ n < 2 ^ 64 ∧
      v = if (text.dropWhile isspace).head? = some 45 then (2 ^ 64 - n) % 2 ^ 64 else n := by
  constructor
  · intro numeral
    cases numeral with
    | @plain blanks text _ blank magnitude bits =>
      obtain ⟨c, rest, rfl, small⟩ := magnitude.first
      obtain ⟨black, minus, plus⟩ := digit_plain small
      have behind : (blanks ++ c :: rest).dropWhile isspace = c :: rest := by
        rw [List.dropWhile_append_of_pos blank, List.dropWhile_cons_of_neg (by simp [black])]
      rw [behind]
      exact ⟨v, by simpa [signless, minus, plus] using magnitude, bits, by simp [minus]⟩
    | @plus blanks text _ blank magnitude bits =>
      have behind : (blanks ++ 43 :: text).dropWhile isspace = 43 :: text := by
        rw [List.dropWhile_append_of_pos blank, List.dropWhile_cons_of_neg (by decide)]
      rw [behind]
      exact ⟨v, by simpa [signless] using magnitude, bits, by simp⟩
    | @minus blanks text n blank magnitude bits =>
      have behind : (blanks ++ 45 :: text).dropWhile isspace = 45 :: text := by
        rw [List.dropWhile_append_of_pos blank, List.dropWhile_cons_of_neg (by decide)]
      rw [behind]
      exact ⟨n, by simpa [signless] using magnitude, bits, by simp⟩
  · rintro ⟨n, magnitude, bits, rfl⟩
    have parts : text = text.takeWhile isspace ++ text.dropWhile isspace := List.takeWhile_append_dropWhile.symm
    have blank : ∀ c ∈ text.takeWhile isspace, isspace c = true := fun c member => List.mem_takeWhile_imp member
    generalize text.dropWhile isspace = rest at *
    generalize text.takeWhile isspace = blanks at *
    subst parts
    by_cases minus : rest.head? = some 45
    · obtain ⟨rest, rfl⟩ := List.head?_eq_some_iff.mp minus
      rw [if_pos minus]
      exact .minus blank (by simpa [signless] using magnitude) bits
    · rw [if_neg minus]
      by_cases plus : rest.head? = some 43
      · obtain ⟨rest, rfl⟩ := List.head?_eq_some_iff.mp plus
        exact .plus blank (by simpa [signless] using magnitude) bits
      · exact .plain blank (by simpa [signless, minus, plus] using magnitude) bits

private theorem not_empty {text : Text} (some : digitsOf (signless (text.dropWhile isspace)) ≠ []) : text ≠ [] := by
  rintro rfl
  exact some rfl

/-- A numeral is read in full and in range, with its number as the answer. -/
theorem numeral_iff {text : Text} {v : Nat} :
    Numeral text v ↔ text ≠ [] ∧ (strtoul text 0).errno = false ∧ (strtoul text 0).endptr = [] ∧
      (strtoul text 0).value = v := by
  rw [numeral_magnitude, strtoul_eq]
  set number := signless (text.dropWhile isspace)
  have read : ∀ n, Magnitude number n ↔ (digitsOf number ≠ [] ∧ (unprefixed number).drop (digitsOf number).length = []) ∧
      n = positional (radix number) (digitsOf number) := by
    intro n
    rw [magnitude_iff, ← digitsOf_full]
    refine and_congr_right fun full => ?_
    rw [digitsOf_whole.mp full.2]
  dsimp only
  by_cases none : digitsOf number = []
  · rw [if_pos none]
    constructor
    · rintro ⟨n, magnitude, -⟩
      exact absurd none ((read n).mp magnitude).1.1
    · rintro ⟨some, -, ends, -⟩
      exact absurd ends some
  · have some : text ≠ [] := not_empty none
    rw [if_neg none]
    by_cases wide : 2 ^ 64 ≤ positional (radix number) (digitsOf number)
    · rw [if_pos wide]
      constructor
      · rintro ⟨n, magnitude, bits, -⟩
        have is := ((read n).mp magnitude).2
        omega
      · rintro ⟨-, bad, -⟩
        cases bad
    · rw [if_neg wide]
      constructor
      · rintro ⟨n, magnitude, -, rfl⟩
        obtain ⟨⟨-, ends⟩, rfl⟩ := (read n).mp magnitude
        exact ⟨some, rfl, ends, rfl⟩
      · rintro ⟨-, -, ends, rfl⟩
        exact ⟨_, (read _).mpr ⟨⟨none, ends⟩, rfl⟩, by omega, rfl⟩

/-- What passes for a number when only `errno` and the end are asked for. -/
def Taken (text : Text) : Prop := (strtoul text 0).errno = false ∧ (strtoul text 0).endptr = []

instance (text : Text) : Decidable (Taken text) := inferInstanceAs (Decidable (_ ∧ _))

theorem taken_iff {text : Text} : Taken text ↔ text = [] ∨ ∃ v, Numeral text v := by
  constructor
  · rintro ⟨small, ends⟩
    by_cases empty : text = []
    · exact .inl empty
    · exact .inr ⟨_, numeral_iff.mpr ⟨empty, small, ends, rfl⟩⟩
  · rintro (rfl | ⟨v, numeral⟩)
    · exact ⟨rfl, rfl⟩
    · obtain ⟨-, small, ends, -⟩ := numeral_iff.mp numeral
      exact ⟨small, ends⟩

end Shardb.Numerals
