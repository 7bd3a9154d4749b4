import Mathlib.Data.List.DropRight
import WaterStructure.Core.Decimal

/-!
# Characters and fields of a text

The few functions of the C and C++ libraries with which the readers take a text apart. Text is a
list of bytes, given as characters.
-/

namespace WaterStructure

/-- `std::isspace`. -/
def isSpace (c : Char) : Bool :=
  c = ' ' || c = '\t' || c = '\n' || c = '\x0b' || c = '\x0c' || c = '\r'

/-- What is checked of each character of a text holds of its characters. -/
theorem forall_mem_of_all {text : List Char} {p : Char → Prop} [DecidablePred p]
    (h : (text.all fun c => decide (p c)) = true) : ∀ c ∈ text, p c :=
  fun c hc => of_decide_eq_true (List.all_eq_true.mp h c hc)

/-- The characters that `trim_view` removes. -/
def isBlank (c : Char) : Bool := c = ' ' || c = '\t' || c = '\r' || c = '\n'

/-- A text without the given characters at both ends. -/
def trimBy (removed : Char → Bool) (text : List Char) : List Char :=
  (text.dropWhile removed).rdropWhile removed

/-- `std::tolower`, on ASCII. -/
def toLower (c : Char) : Char := if 'A' ≤ c ∧ c ≤ 'Z' then Char.ofNat (c.toNat + 32) else c

def asciiIequals (left right : List Char) : Bool := left.map toLower = right.map toLower

/-- The next field, and what follows it. -/
def nextField (line : List Char) : Option (List Char × List Char) :=
  match line.dropWhile isSpace with
  | [] => none
  | c :: rest =>
    some ((c :: rest).takeWhile fun c => !isSpace c, (c :: rest).dropWhile fun c => !isSpace c)

/-- The parts of a text between separators; without a separator the text is the only part. -/
def splitAtEach (separator : Char) (text : List Char) : List (List Char) :=
  text.splitOn separator

/-- What stands before and behind the first separator. -/
def cutAtFirst (separator : Char) (text : List Char) : Option (List Char × List Char) :=
  if separator ∈ text then
    some (text.takeWhile (· ≠ separator), (text.dropWhile (· ≠ separator)).tail)
  else none

/-- The largest value of `unsigned long`. -/
def ulongMax : ℕ := 18446744073709551615

/-- `std::stoul`: the value of the digits at the front, behind space and a sign, and what follows
them. Nothing to read and a value out of range are exceptions. -/
def stoul (text : List Char) : Except String (ℕ × List Char) :=
  let body := text.dropWhile isSpace
  let negative := body.head? = some '-'
  let digits := if negative ∨ body.head? = some '+' then body.tail else body
  match digitsValue (digits.takeWhile Char.isDigit) with
  | none => .error "stoul"
  | some value =>
    if value > ulongMax then .error "stoul"
    else
      .ok (if negative then (ulongMax + 1 - value.toNat) % (ulongMax + 1) else value.toNat,
        digits.dropWhile Char.isDigit)

/-- A list that is sorted by a key of its items stands in the order of these keys. -/
theorem pairwise_mergeSort_by {α κ : Type*} [LE κ] [DecidableLE κ]
    (htrans : ∀ left middle right : κ, left ≤ middle → middle ≤ right → left ≤ right)
    (htotal : ∀ left right : κ, left ≤ right ∨ right ≤ left) (key : α → κ) (items : List α) :
    (items.mergeSort fun left right => decide (key left ≤ key right)).Pairwise
      fun left right => key left ≤ key right := by
  have hle := List.pairwise_mergeSort
    (fun (left middle right : α) (h : decide (key left ≤ key middle) = true)
      (h' : decide (key middle ≤ key right) = true) =>
        (decide_eq_true (htrans _ _ _ (of_decide_eq_true h) (of_decide_eq_true h')) :
          decide (key left ≤ key right) = true))
    (fun left right => by
      rw [Bool.or_eq_true, decide_eq_true_eq, decide_eq_true_eq]
      exact htotal (key left) (key right)) items
  exact hle.imp fun hkey => of_decide_eq_true hkey

end WaterStructure
