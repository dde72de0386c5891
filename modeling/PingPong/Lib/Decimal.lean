import Mathlib.Algebra.Group.Int.Defs
import Mathlib.Algebra.Group.Nat.Defs
import Mathlib.Data.List.TakeWhile

/-!
# Decimal numerals in byte strings

`std::to_string` of a natural number, and `std::stoi` in the C locale: white space, a sign and at
least one digit are read from the front, and whatever follows the digits is ignored.
-/

namespace Decimal

def byte (c : Char) : UInt8 := UInt8.ofNat c.toNat

def ascii (s : String) : List UInt8 := s.toList.map byte

def to_string (n : Nat) : List UInt8 := (Nat.toDigits 10 n).map byte

/-! ## Reading -/

/-- What `std::stoi` throws. -/
inductive StoiError where
  | invalid_argument
  | out_of_range
deriving DecidableEq

def isspace (b : UInt8) : Bool := b = 32 ∨ 9 ≤ b ∧ b ≤ 13

def isdigit (b : UInt8) : Bool := 48 ≤ b ∧ b ≤ 57

/-- Whether there is a minus sign in front, and what is behind the sign. -/
def sign : List UInt8 → Bool × List UInt8
  | 45 :: rest => (true, rest)
  | 43 :: rest => (false, rest)
  | rest => (false, rest)

/-- The number a sequence of digits stands for. -/
def value (digits : List UInt8) : Nat :=
  digits.foldl (fun sofar d => 10 * sofar + (d.toNat - 48)) 0

/-- The `int` at the front of a string. -/
def stoi (str : List UInt8) : Except StoiError Int :=
  let (negative, rest) := sign (str.dropWhile isspace)
  let digits := rest.takeWhile isdigit
  if digits = [] then .error .invalid_argument
  else
    let number : Int := if negative then -(value digits : Int) else value digits
    if number < -2 ^ 31 ∨ 2 ^ 31 ≤ number then .error .out_of_range else .ok number

/-! ## Reading what was written -/

theorem toNat_byte_of_isDigit {c : Char} (h : c.isDigit) : (byte c).toNat = c.toNat := by
  have small : c.toNat ≤ 57 := by
    have bounds := h
    simp only [Char.isDigit, Bool.and_eq_true, decide_eq_true_eq] at bounds
    exact bounds.2
  rw [byte, UInt8.toNat_ofNat', Nat.mod_eq_of_lt]
  omega

theorem isdigit_byte {c : Char} (h : c.isDigit) : isdigit (byte c) := by
  have same := toNat_byte_of_isDigit h
  have bounds := h
  simp only [Char.isDigit, Bool.and_eq_true, decide_eq_true_eq] at bounds
  have low : 48 ≤ c.toNat := bounds.1
  have high : c.toNat ≤ 57 := bounds.2
  apply decide_eq_true
  rw [UInt8.le_iff_toNat_le, UInt8.le_iff_toNat_le, same]
  exact ⟨low, high⟩

theorem isdigit_to_string {n : Nat} : ∀ d ∈ to_string n, isdigit d := by
  intro d member
  obtain ⟨c, digit, rfl⟩ := List.mem_map.mp member
  exact isdigit_byte (Nat.isDigit_of_mem_toDigits (by decide) (by decide) digit)

theorem to_string_ne_nil (n : Nat) : to_string n ≠ [] := by
  intro empty
  exact Nat.toDigits_ne_nil (List.map_eq_nil_iff.mp empty)

theorem foldl_map_byte {digits : List Char} (all : ∀ c ∈ digits, c.isDigit) (start : Nat) :
    (digits.map byte).foldl (fun sofar d => 10 * sofar + (d.toNat - 48)) start =
      Nat.ofDigitChars 10 digits start := by
  induction digits generalizing start with
  | nil => rfl
  | cons c later ih =>
      rw [List.map_cons, List.foldl_cons, Nat.ofDigitChars_cons,
        toNat_byte_of_isDigit (all c List.mem_cons_self),
        ih fun c member => all c (List.mem_cons_of_mem _ member)]
      rfl

@[simp] theorem value_to_string (n : Nat) : value (to_string n) = n := by
  unfold value to_string
  rw [foldl_map_byte fun c member =>
    Nat.isDigit_of_mem_toDigits (by decide) (by decide) member]
  exact Nat.ofDigitChars_ten_toDigits

/-- A numeral starts with neither white space nor a sign. -/
theorem sign_of_digit {d : UInt8} (digit : isdigit d) (rest : List UInt8) :
    sign (d :: rest) = (false, d :: rest) := by
  unfold sign
  split
  · rename_i same
    cases (List.cons.inj same).1
    cases digit
  · rename_i same
    cases (List.cons.inj same).1
    cases digit
  · rfl

theorem not_isspace_of_digit {d : UInt8} (digit : isdigit d) : ¬ isspace d := by
  have bounds := of_decide_eq_true digit
  rw [UInt8.le_iff_toNat_le, UInt8.le_iff_toNat_le] at bounds
  intro space
  rcases of_decide_eq_true space with rfl | between
  · exact absurd bounds.1 (by decide)
  · rw [UInt8.le_iff_toNat_le, UInt8.le_iff_toNat_le] at between
    have low : 48 ≤ d.toNat := bounds.1
    have high : d.toNat ≤ 13 := between.2
    omega

/-- A numeral is read as its value. -/
theorem stoi_of_digits {digits : List UInt8} (all : ∀ d ∈ digits, isdigit d)
    (some_digit : digits ≠ []) (small : value digits < 2 ^ 31) :
    stoi digits = .ok (value digits) := by
  have front : sign (digits.dropWhile isspace) = (false, digits) := by
    cases digits with
    | nil => exact absurd rfl some_digit
    | cons d later =>
        have digit := all d List.mem_cons_self
        rw [List.dropWhile_cons_of_neg (not_isspace_of_digit digit), sign_of_digit digit]
  have whole : digits.takeWhile isdigit = digits := List.takeWhile_eq_self_iff.mpr all
  have in_range : ¬ ((value digits : Int) < -2 ^ 31 ∨ 2 ^ 31 ≤ (value digits : Int)) := by omega
  unfold stoi
  rw [front]
  simp only [whole]
  rw [if_neg some_digit]
  exact if_neg in_range

theorem stoi_to_string {n : Nat} (small : n < 2 ^ 31) : stoi (to_string n) = .ok n := by
  have read := @stoi_of_digits (to_string n) isdigit_to_string (to_string_ne_nil n)
    (by rw [value_to_string]; exact small)
  rw [value_to_string] at read
  exact read

end Decimal
