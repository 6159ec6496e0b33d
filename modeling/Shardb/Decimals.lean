import Mathlib.Data.Nat.Digits.Lemmas
import Shardb.Config

/-!
# Numbers that are written out

The decimal numeral of a number (`decimal`), and lists of them with a separator
between. `strtoul` reads such a numeral back, whatever stands behind it that is
neither digit nor letter (`strtoul_decimal`).
-/

namespace Shardb.Decimals
open Shardb.Bytes (Text ascii)
open Shardb.Config
open Shardb.Handlers (isspace)

/-- The character of a digit. -/
def numeral (d : Nat) : UInt8 := UInt8.ofNat (48 + d)

/-- A number in base 10, without zeros in front of it. -/
def decimal (n : Nat) : Text := if n = 0 then [48] else (Nat.digits 10 n).reverse.map numeral

example : decimal 27461 = ascii "27461" := by decide

/-- The characters of a numeral. -/
def Figure (c : UInt8) : Prop := ∃ d < 10, c = numeral d

theorem numeral_digit {d : Nat} (small : d < 10) : digit (numeral d) = d := by
  interval_cases d <;> decide

/-- A character of a numeral is no other sign. -/
theorem Figure.plain {c : UInt8} (figure : Figure c) :
    isspace c = false ∧ c ≠ 43 ∧ c ≠ 45 ∧ c ≠ 120 ∧ c ≠ 88 ∧ digit c < 10 := by
  obtain ⟨d, small, rfl⟩ := figure
  interval_cases d <;> decide

theorem decimal_figures {n : Nat} : ∀ c ∈ decimal n, Figure c := by
  intro c member
  unfold decimal at member
  split_ifs at member with zero
  · rw [List.mem_singleton.mp member]
    exact ⟨0, by decide, rfl⟩
  · obtain ⟨d, digit, rfl⟩ := List.mem_map.mp member
    exact ⟨d, Nat.digits_lt_base (by decide) (List.mem_reverse.mp digit), rfl⟩

theorem decimal_some {n : Nat} : decimal n ≠ [] := by
  unfold decimal
  split_ifs with zero
  · simp
  · simp [Nat.digits_ne_nil_iff_ne_zero, zero]

/-- Only the numeral of 0 begins with a 0. -/
theorem decimal_head {n : Nat} (positive : n ≠ 0) : (decimal n).head? ≠ some 48 := by
  have some : Nat.digits 10 n ≠ [] := Nat.digits_ne_nil_iff_ne_zero.mpr positive
  rw [decimal, if_neg positive, List.head?_map, List.head?_reverse, List.getLast?_eq_some_getLast some]
  have last := Nat.getLast_digit_ne_zero 10 positive
  have small : (Nat.digits 10 n).getLast some < 10 := Nat.digits_lt_base (by decide) (List.getLast_mem some)
  generalize (Nat.digits 10 n).getLast some = d at last small
  interval_cases d
  · exact absurd rfl last
  all_goals decide

/-- A numeral has no more digits than its number needs. -/
theorem decimal_length {n k : Nat} (some : 0 < k) (small : n < 10 ^ k) : (decimal n).length ≤ k := by
  unfold decimal
  split_ifs with zero
  · exact some
  · simpa using (Nat.digits_length_le_iff (by decide) n).mpr small

theorem decimal_value (n : Nat) : (decimal n).foldl (fun n c => n * 10 + digit c) 0 = n := by
  by_cases zero : n = 0
  · subst zero
    decide
  · have value : ∀ digits : List Nat, (∀ d ∈ digits, d < 10) →
        digits.foldr (fun d n => n * 10 + digit (numeral d)) 0 = Nat.ofDigits 10 digits := by
      intro digits
      induction digits with
      | nil => intro _; rfl
      | cons d digits ih =>
        intro small
        obtain ⟨first, rest⟩ := List.forall_mem_cons.mp small
        rw [List.foldr_cons, ih rest, numeral_digit first, Nat.ofDigits_cons]
        omega
    rw [decimal, if_neg zero, List.foldl_map, List.foldl_reverse,
      value _ fun d member => Nat.digits_lt_base (by decide) member, Nat.ofDigits_digits]

/-! ### What `strtoul` makes of them -/

/-- Neither a digit nor a letter is next. -/
def Ends (rest : Text) : Prop := ∀ c ∈ rest.head?, digit c = 36

/-- The digits that are read are those of the numeral. -/
private theorem decimal_takeWhile {n radix : Nat} {rest : Text} (ends : Ends rest)
    (base : radix ≤ 36) (all : ∀ c ∈ decimal n, digit c < radix) :
    (decimal n ++ rest).takeWhile (digit · < radix) = decimal n := by
  rw [List.takeWhile_append_of_pos (by simpa using all)]
  cases rest with
  | nil => simp
  | cons c rest =>
    have stops : digit c = 36 := ends c rfl
    simp [stops, base]

/-- What is read when neither blanks nor a sign nor a prefix stand in front. -/
private theorem strtoul_plain {text : Text} {base radix : Nat} (unsigned : text.dropWhile isspace = text)
    (minus : text.head? ≠ some 45) (plus : text.head? ≠ some 43)
    (letter : text[1]? ≠ some 120 ∧ text[1]? ≠ some 88)
    (found : (if base = 0 then (if text.head? = some 48 then 8 else 10) else base) = radix)
    (read : text.takeWhile (digit · < radix) ≠ [])
    (fits : (text.takeWhile (digit · < radix)).foldl (fun n c => n * radix + digit c) 0 < 2 ^ 64) :
    strtoul text base = ⟨(text.takeWhile (digit · < radix)).foldl (fun n c => n * radix + digit c) 0,
      text.drop (text.takeWhile (digit · < radix)).length, false⟩ := by
  unfold strtoul
  simp only [unsigned, minus, plus, letter, or_self, and_false, false_and, if_false, found, read]
  rw [if_neg (by omega)]

/-- A numeral is read back, with base 10 or with the base found out. -/
theorem strtoul_decimal {n base : Nat} {rest : Text} (bits : n < 2 ^ 64) (ends : Ends rest)
    (known : base = 0 ∨ base = 10) : strtoul (decimal n ++ rest) base = ⟨n, rest, false⟩ := by
  obtain ⟨c, cs, text⟩ := List.exists_cons_of_ne_nil (decimal_some (n := n))
  obtain ⟨blank, plus, minus, -⟩ := (decimal_figures c (text ▸ List.mem_cons_self)).plain
  have unsigned : (decimal n ++ rest).dropWhile isspace = decimal n ++ rest := by simp [text, blank]
  have first : (decimal n ++ rest).head? = some c := by simp [text]
  -- a letter behind the first digit is none of the numeral
  have mark : ∀ x : UInt8, digit x = 33 → (decimal n ++ rest)[1]? ≠ some x := by
    intro x letter second
    rw [List.getElem?_append] at second
    split_ifs at second with inside
    · obtain ⟨-, -, -, -, -, small⟩ := (decimal_figures x (List.mem_of_getElem? second)).plain
      omega
    · have behind : 1 - (decimal n).length = 0 := by
        have := List.length_pos_iff.mpr (decimal_some (n := n))
        omega
      rw [behind, ← List.head?_eq_getElem?] at second
      have := ends x second
      omega
  -- the numeral of 0 is read with base 8
  obtain ⟨radix, found, read, value⟩ : ∃ radix,
      (if base = 0 then (if (decimal n ++ rest).head? = some 48 then 8 else 10) else base) = radix ∧
      (decimal n ++ rest).takeWhile (digit · < radix) = decimal n ∧
      (decimal n).foldl (fun n c => n * radix + digit c) 0 = n := by
    by_cases zero : n = 0
    · subst zero
      have small : ∀ r, 0 < r → ∀ c ∈ decimal 0, digit c < r := by
        intro r positive c member
        rw [List.mem_singleton.mp (show c ∈ [48] from member)]
        exact positive
      rcases known with rfl | rfl
      · exact ⟨8, rfl, decimal_takeWhile ends (by decide) (small 8 (by decide)), rfl⟩
      · exact ⟨10, rfl, decimal_takeWhile ends (by decide) (small 10 (by decide)), rfl⟩
    · refine ⟨10, ?_, decimal_takeWhile ends (by decide) fun c member => ?_, decimal_value n⟩
      · rw [List.head?_append_of_ne_nil _ decimal_some, if_neg (decimal_head zero)]
        rcases known with rfl | rfl <;> rfl
      · exact (decimal_figures c member).plain.2.2.2.2.2
  have result := strtoul_plain unsigned (by simp [first, minus]) (by simp [first, plus])
    ⟨mark 120 (by decide), mark 88 (by decide)⟩ found (by rw [read]; exact decimal_some) (by rw [read, value]; exact bits)
  rw [result, read, value, List.drop_left]

/-- A character that may stand between numbers. -/
theorem ends_cons {c : UInt8} (rest : Text) (other : digit c = 36) : Ends (c :: rest) := by
  intro x first
  cases first
  exact other

/-- Nothing is left behind a numeral alone. -/
theorem strtoul_alone {n base : Nat} (bits : n < 2 ^ 64) (known : base = 0 ∨ base = 10) :
    strtoul (decimal n) base = ⟨n, [], false⟩ := by
  have read := @strtoul_decimal n base [] bits (by simp [Ends]) known
  rwa [List.append_nil] at read

/-! ### Lists of numbers -/

/-- Numbers with a separator between them. -/
def separated (separator : UInt8) (ns : List Nat) : Text := [separator].intercalate (ns.map decimal)

theorem separated_cons (separator : UInt8) (n : Nat) (ns : List Nat) :
    separated separator (n :: ns) = decimal n ++ if ns = [] then [] else separator :: separated separator ns := by
  cases ns with
  | nil => simp [separated]
  | cons m ns => simp [separated, List.intercalate]

theorem not_decimal {n : Nat} {c : UInt8} (other : digit c = 36) : c ∉ decimal n := by
  intro member
  have := (decimal_figures c member).plain.2.2.2.2.2
  omega

/-- Only digits and separators stand in them. -/
theorem not_separated {separator c : UInt8} {ns : List Nat} (other : digit c = 36) (apart : c ≠ separator) :
    c ∉ separated separator ns := by
  induction ns with
  | nil => simp [separated]
  | cons n ns ih =>
    rw [separated_cons]
    split_ifs with last
    · simpa using not_decimal other
    · simp only [List.mem_append, List.mem_cons, not_or]
      exact ⟨not_decimal other, apart, ih⟩

theorem separated_splitOn {separator : UInt8} {ns : List Nat} (other : digit separator = 36) (some : ns ≠ []) :
    (separated separator ns).splitOn separator = ns.map decimal := by
  refine List.splitOn_intercalate separator (fun field member => ?_) (by simpa using some)
  obtain ⟨n, -, rfl⟩ := List.mem_map.mp member
  exact not_decimal other

theorem separated_length {separator : UInt8} {k : Nat} (some : 0 < k) {ns : List Nat} (small : ∀ n ∈ ns, n < 10 ^ k) :
    (separated separator ns).length ≤ ns.length * (k + 1) := by
  induction ns with
  | nil => simp [separated]
  | cons n ns ih =>
    obtain ⟨first, rest⟩ := List.forall_mem_cons.mp small
    have here := decimal_length some first
    have there := ih rest
    rw [separated_cons, List.length_append, List.length_cons, Nat.add_mul]
    split_ifs
    · simp
      omega
    · rw [List.length_cons]
      omega

end Shardb.Decimals
