import Mathlib.Data.Int.Notation
import WaterStructure.Core.Coordinates

/-!
# Decimal numbers

`fromChars` is `std::from_chars` to `std::int32_t` on a whole text and `decimal` is
`std::to_chars`. Text is a list of bytes, given as characters.
-/

namespace WaterStructure

/-- The value of a text of decimal digits. -/
def digitsValue (text : List Char) : Option ℤ :=
  if text.isEmpty || text.any (fun c => !c.isDigit) then none
  else some (text.foldl (fun value c => value * 10 + (c.toNat - '0'.toNat : ℕ)) 0)

/-- `std::from_chars` to `std::int32_t`, reading the whole text. -/
def fromChars (text : List Char) : Option ℤ := do
  let value ← match text with
    | '-' :: digits => (digitsValue digits).map (- ·)
    | digits => digitsValue digits
  if IsInt32 value then some value else none

theorem isInt32_of_fromChars {text : List Char} {value : ℤ} (h : fromChars text = some value) :
    IsInt32 value := by
  have hguard {number : Option ℤ}
      (hnumber : (number.bind fun n => if IsInt32 n then some n else none) = some value) :
      IsInt32 value := by
    obtain ⟨n, -, hn⟩ := Option.bind_eq_some_iff.mp hnumber
    split at hn
    case isTrue hint => exact Option.some.inj hn ▸ hint
    case isFalse => cases hn
  unfold fromChars at h
  split at h
  case h_1 => exact hguard h
  case h_2 => exact hguard h

/-- `std::to_chars`, `std::to_string` and `<<` of an integer. -/
def decimal (value : ℤ) : List Char :=
  if value < 0 then '-' :: Nat.toDigits 10 value.natAbs else Nat.toDigits 10 value.natAbs

theorem decimal_ne_nil (value : ℤ) : decimal value ≠ [] := by
  rw [decimal]
  split
  · exact List.cons_ne_nil _ _
  · exact Nat.toDigits_ne_nil

/-- A decimal consists of digits and perhaps a sign. -/
theorem isDigit_of_mem_decimal {value : ℤ} {c : Char} (h : c ∈ decimal value) :
    c.isDigit = true ∨ c = '-' := by
  rw [decimal] at h
  split at h
  · rcases List.mem_cons.mp h with rfl | hdigit
    · exact .inr rfl
    · exact .inl (Nat.isDigit_of_mem_toDigits (by decide) (by decide) hdigit)
  · exact .inl (Nat.isDigit_of_mem_toDigits (by decide) (by decide) h)

/-- Reading the digits of a number. -/
theorem digitsValue_toDigits (n : ℕ) : digitsValue (Nat.toDigits 10 n) = some (n : ℤ) := by
  have hdigits : (Nat.toDigits 10 n).any (fun c => !c.isDigit) = false := by
    rw [List.any_eq_false]
    intro c hc
    rw [Nat.isDigit_of_mem_toDigits (by decide) (by decide) hc]
    decide
  have hfold (text : List Char) (init : ℕ) :
      text.foldl (fun (value : ℤ) c => value * 10 + (c.toNat - '0'.toNat : ℕ)) init =
        Nat.ofDigitChars 10 text init := by
    induction text generalizing init with
    | nil => rw [Nat.ofDigitChars_nil, List.foldl_nil]
    | cons c rest ih =>
      rw [List.foldl_cons, Nat.ofDigitChars_cons, ← ih]
      congr 1
      rw [Int.natCast_add, Int.natCast_mul, Int.mul_comm]
      rfl
  have hnonempty : (Nat.toDigits 10 n).isEmpty = false := by
    rw [List.isEmpty_eq_false_iff]
    exact Nat.toDigits_ne_nil
  have hvalue := hfold (Nat.toDigits 10 n) 0
  rw [Nat.ofDigitChars_ten_toDigits] at hvalue
  rw [digitsValue, hnonempty, hdigits, if_neg (by decide)]
  exact congrArg some hvalue

/-- Digits do not start with a sign. -/
theorem toDigits_ne_minus (n : ℕ) (rest : List Char) : Nat.toDigits 10 n ≠ '-' :: rest := by
  intro h
  have hdigit := @Nat.isDigit_of_mem_toDigits 10 n '-' (by decide) (by decide)
    (h ▸ List.mem_cons_self)
  revert hdigit
  decide

/-- An `int32` is read back from its decimal. -/
theorem fromChars_decimal {value : ℤ} (h : IsInt32 value) : fromChars (decimal value) = some value := by
  rw [decimal]
  split_ifs with hneg
  · have habs : -((value.natAbs : ℕ) : ℤ) = value := by omega
    rw [fromChars]
    dsimp only
    rw [digitsValue_toDigits, Option.map_some, habs]
    exact if_pos h
  · have habs : ((value.natAbs : ℕ) : ℤ) = value := by omega
    unfold fromChars
    split
    case h_1 digits heq => exact absurd heq (toDigits_ne_minus _ _)
    case h_2 =>
      rw [digitsValue_toDigits, habs]
      exact if_pos h

end WaterStructure
