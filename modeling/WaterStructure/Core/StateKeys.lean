import Mathlib.Data.Char
import Mathlib.Data.Int.Notation
import Mathlib.Data.List.Lex
import Mathlib.Data.List.Sort
import WaterStructure.Core.Decimal
import WaterStructure.Core.Types

/-!
# The identity text of a block state

The registry finds a block state by a text: its name, its version and its properties in order, with
separators between them and nothing quoted. The texts tell states apart as long as the names and
values are free of the separators, and they do not depend on the order of the properties as long
as no two properties differ in their type alone.
-/

namespace WaterStructure

/-- `static_cast<int>` of a property type. -/
def valueTypeNumber : BlockStateValueType → ℤ
  | .Byte => 0
  | .Short => 1
  | .Int => 2
  | .Long => 3
  | .String => 4

/-- `properties_less`, the other way round: by name, type and value. -/
def PropertyLe (left right : BlockStateProperty) : Prop :=
  left.name < right.name ∨ left.name = right.name ∧
    (valueTypeNumber left.type < valueTypeNumber right.type ∨ left.type = right.type ∧
      left.value ≤ right.value)

instance (left right : BlockStateProperty) : Decidable (PropertyLe left right) :=
  inferInstanceAs (Decidable (_ ∨ _ ∧ (_ ∨ _ ∧ _)))

/-- The order of `key_for`, the other way round: by name and value, and not by type. -/
def IdentityLe (left right : BlockStateProperty) : Prop :=
  left.name < right.name ∨ left.name = right.name ∧ left.value ≤ right.value

instance (left right : BlockStateProperty) : Decidable (IdentityLe left right) :=
  inferInstanceAs (Decidable (_ ∨ _ ∧ _))

def normalizeName (name : List Char) : List Char :=
  if name.isEmpty then "minecraft:unknown".toList
  else if ':' ∈ name then name
  else "minecraft:".toList ++ name

/-- One property of a key, with the bar before it. -/
def propertyText (property : BlockStateProperty) : List Char :=
  property.name ++ ':' :: decimal (valueTypeNumber property.type) ++ '=' :: property.value

/-- `state_key_for`. -/
def stateKeyFor (name : List Char) (states : List BlockStateProperty) : List Char :=
  normalizeName name ++
    (states.insertionSort PropertyLe).flatMap fun property => '|' :: propertyText property

/-- `key_for`. `std::sort` leaves properties of one name and value in the order in which a short
list has them. -/
def keyFor (name : List Char) (states : List BlockStateProperty) (version : ℤ) : List Char :=
  normalizeName name ++ '|' :: decimal version ++
    (states.insertionSort IdentityLe).flatMap fun property => '|' :: propertyText property

namespace BlockState

def key (state : BlockState) : List Char := keyFor state.name state.states state.version

def stateKey (state : BlockState) : List Char := stateKeyFor state.name state.states

/-- The state under its normalised name. -/
def normalized (state : BlockState) : BlockState := { state with name := normalizeName state.name }

/-- The states are the same block state: one normalised name, one version, and the same properties
in any order. -/
def Same (left right : BlockState) : Prop :=
  normalizeName left.name = normalizeName right.name ∧ left.version = right.version ∧
    left.states.Perm right.states

instance (left right : BlockState) : Decidable (left.Same right) :=
  inferInstanceAs (Decidable (_ ∧ _ ∧ _))

theorem Same.symm {left right : BlockState} (h : left.Same right) : right.Same left :=
  ⟨h.1.symm, h.2.1.symm, h.2.2.symm⟩

theorem Same.trans {first second third : BlockState} (h : first.Same second)
    (h' : second.Same third) : first.Same third :=
  ⟨h.1.trans h'.1, h.2.1.trans h'.2.1, h.2.2.trans h'.2.2⟩

end BlockState

/-- A normalised name is left as it is. -/
theorem normalizeName_normalizeName (name : List Char) :
    normalizeName (normalizeName name) = normalizeName name := by
  have hkept {name : List Char} (h : ':' ∈ name) : normalizeName name = name := by
    rw [normalizeName, if_neg, if_pos h]
    cases name with
    | nil => cases h
    | cons c rest => exact Bool.false_ne_true
  refine hkept ?_
  rw [normalizeName]
  split_ifs with _ h
  · decide
  · exact h
  · exact List.mem_append_left _ (by decide)

namespace BlockState

theorem same_normalized (state : BlockState) : state.normalized.Same state :=
  ⟨normalizeName_normalizeName state.name, rfl, List.Perm.refl _⟩

@[simp] theorem key_normalized (state : BlockState) : state.normalized.key = state.key := by
  rw [key, key, keyFor, keyFor, normalized, normalizeName_normalizeName]

/-- Nothing in the state can be taken for a separator of a key, and the properties have one
order. -/
structure Plain (state : BlockState) : Prop where
  name : '|' ∉ normalizeName state.name
  propertyName : ∀ property ∈ state.states, '|' ∉ property.name ∧ '=' ∉ property.name
  value : ∀ property ∈ state.states, '|' ∉ property.value
  ordered : ∀ left ∈ state.states, ∀ right ∈ state.states, left.name = right.name →
    left.value = right.value → left.type = right.type

end BlockState

theorem decimal_injective : Function.Injective decimal := by
  intro left right h
  have hdigits {m n : ℕ} (h : Nat.toDigits 10 m = Nat.toDigits 10 n) : m = n := by
    have hvalue := digitsValue_toDigits m
    rw [h, digitsValue_toDigits, Option.some.injEq] at hvalue
    exact_mod_cast hvalue.symm
  simp only [decimal] at h
  split at h <;> split at h
  case isTrue.isTrue =>
    have := hdigits (List.cons_inj_right '-' |>.mp h)
    omega
  case isTrue.isFalse => exact absurd h.symm (toDigits_ne_minus _ _)
  case isFalse.isTrue => exact absurd h (toDigits_ne_minus _ _)
  case isFalse.isFalse =>
    have := hdigits h
    omega

/-- Sorting by name and value gives one list when no two properties differ in their type alone. -/
theorem insertionSort_identityLe {left right : List BlockStateProperty} (hperm : left.Perm right)
    (hordered : ∀ first ∈ left, ∀ second ∈ left, first.name = second.name →
      first.value = second.value → first.type = second.type) :
    left.insertionSort IdentityLe = right.insertionSort IdentityLe := by
  have htotal : Std.Total (α := BlockStateProperty) IdentityLe := ⟨fun first second => by
    unfold IdentityLe
    by_cases hlt : first.name < second.name
    · exact .inl (.inl hlt)
    by_cases hgt : second.name < first.name
    · exact .inr (.inl hgt)
    have heq := le_antisymm (not_lt.mp hgt) (not_lt.mp hlt)
    rcases le_total first.value second.value with hle | hle
    · exact .inl (.inr ⟨heq, hle⟩)
    · exact .inr (.inr ⟨heq.symm, hle⟩)⟩
  have htrans : IsTrans BlockStateProperty IdentityLe := ⟨fun first second third h h' => by
    unfold IdentityLe at *
    rcases h with h | ⟨h, hle⟩ <;> rcases h' with h' | ⟨h', hle'⟩
    · exact .inl (lt_trans h h')
    · exact .inl (h' ▸ h)
    · exact .inl (h ▸ h')
    · exact .inr ⟨h.trans h', le_trans hle hle'⟩⟩
  refine List.Perm.eq_of_pairwise ?_ (List.pairwise_insertionSort IdentityLe left)
    (List.pairwise_insertionSort IdentityLe right)
    ((List.perm_insertionSort _ _).trans (hperm.trans (List.perm_insertionSort _ _).symm))
  intro first second hfirst hsecond h h'
  have hfirst := (List.mem_insertionSort _).mp hfirst
  have hsecond := hperm.mem_iff.mpr ((List.mem_insertionSort _).mp hsecond)
  have hfields : first.name = second.name ∧ first.value = second.value := by
    unfold IdentityLe at h h'
    rcases h with h | ⟨hname, hle⟩ <;> rcases h' with h' | ⟨hname', hle'⟩
    · exact absurd (lt_trans h h') (lt_irrefl _)
    · exact absurd (hname' ▸ h) (lt_irrefl _)
    · exact absurd (hname ▸ h') (lt_irrefl _)
    · exact ⟨hname, le_antisymm hle hle'⟩
  have htype := hordered first hfirst second hsecond hfields.1 hfields.2
  cases first
  cases second
  simp only at hfields htype
  rw [hfields.1, hfields.2, htype]

/-- Plain states that are the same have one key. -/
theorem BlockState.Plain.key_eq_of_same {left right : BlockState} (hleft : left.Plain)
    (h : left.Same right) : left.key = right.key := by
  rw [BlockState.key, BlockState.key, keyFor, keyFor, h.1, h.2.1,
    insertionSort_identityLe h.2.2 hleft.ordered]

end WaterStructure
