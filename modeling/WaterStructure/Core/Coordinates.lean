import Mathlib.Algebra.Order.Group.Unbundled.Int

/-!
# Block, chunk and subchunk coordinates

The coordinate helpers of `coordinates.hpp`. Machine integers are integers here; where a
width matters, the definition that uses the value states its range. The C++ division
truncates, so each helper corrects the quotient of a negative value by hand; for a positive
divisor the result is the mathematical floor.
-/

namespace WaterStructure

/-- The smallest value of `std::int32_t`. -/
def int32Min : ℤ := -2147483648

/-- The largest value of `std::int32_t`. -/
def int32Max : ℤ := 2147483647

/-- The value fits `std::int32_t`. -/
def IsInt32 (value : ℤ) : Prop := int32Min ≤ value ∧ value ≤ int32Max

instance (value : ℤ) : Decidable (IsInt32 value) := inferInstanceAs (Decidable (_ ∧ _))

/-- `static_cast<std::int32_t>`: the value modulo 2³², as a signed number. -/
def toInt32 (value : ℤ) : ℤ := (value + 2147483648) % 4294967296 - 2147483648

/-- `static_cast<std::size_t>`: the value modulo 2⁶⁴. -/
def toSizeT (value : ℤ) : ℕ := (value % 18446744073709551616).toNat

/-- The conversion keeps values that fit. -/
theorem toInt32_eq {value : ℤ} (h : IsInt32 value) : toInt32 value = value := by
  unfold IsInt32 int32Min int32Max at h
  unfold toInt32
  omega

/-- The conversion keeps non-negative values that fit. -/
theorem toSizeT_eq {value : ℤ} (h : 0 ≤ value) (hlt : value < 18446744073709551616) :
    toSizeT value = value.toNat := by
  unfold toSizeT
  rw [Int.emod_eq_of_lt h hlt]

/-- The lowest block row of the overworld. -/
def kOverworldMinY : ℤ := -64

def kMinSubChunkY : ℤ := kOverworldMinY.tdiv 16

def kMaxSubChunkY : ℤ := 19

/-- Division rounding toward negative infinity, for a positive divisor. -/
def floorDiv (value divisor : ℤ) : ℤ :=
  value.tdiv divisor - (if value.tmod divisor < 0 then 1 else 0)

/-- The remainder that belongs to `floorDiv`. -/
def floorMod (value divisor : ℤ) : ℤ :=
  value - floorDiv value divisor * divisor

/-- Division rounding toward negative infinity, for a divisor of either sign. -/
def floorDiv64 (value divisor : ℤ) : ℤ :=
  value.tdiv divisor -
    (if value.tmod divisor ≠ 0 ∧ ¬ (value.tmod divisor < 0 ↔ divisor < 0) then 1 else 0)

/-- The remainder that belongs to `floorDiv64`. -/
def floorMod64 (value divisor : ℤ) : ℤ :=
  value - floorDiv64 value divisor * divisor

/-- The subchunk row of a world block row. -/
def worldYToSubchunk (y : ℤ) : ℤ := floorDiv y 16

/-- Structure rows start at zero; chunk-local rows start at the overworld floor. -/
def structureYToChunkLocal (y : ℤ) : ℤ := y + kOverworldMinY

/-- Correcting the truncated quotient by the sign of the remainder gives the floor. -/
theorem floorDiv_eq_ediv (value divisor : ℤ) (hd : 0 < divisor) :
    floorDiv value divisor = value / divisor := by
  have hsum := Int.mul_tdiv_add_tmod value divisor
  have hlow := Int.lt_tmod_of_pos value hd
  have hhigh := Int.tmod_lt_of_pos value hd
  unfold floorDiv
  split
  · refine (((Int.ediv_emod_unique hd (r := value.tmod divisor + divisor)).mpr ?_).1).symm
    refine ⟨?_, by omega, by omega⟩
    rw [Int.mul_sub]
    omega
  · refine (((Int.ediv_emod_unique hd (r := value.tmod divisor)).mpr ?_).1).symm
    rw [Int.sub_zero]
    exact ⟨by omega, by omega, hhigh⟩

/-- The corrected remainder is the Euclidean one. -/
theorem floorMod_eq_emod (value divisor : ℤ) (hd : 0 < divisor) :
    floorMod value divisor = value % divisor := by
  rw [floorMod, floorDiv_eq_ediv value divisor hd, Int.emod_def, Int.mul_comm]

/-- For a positive divisor the sign test of `floorDiv64` is the one of `floorDiv`. -/
theorem floorDiv64_eq_ediv (value divisor : ℤ) (hd : 0 < divisor) :
    floorDiv64 value divisor = value / divisor := by
  rw [← floorDiv_eq_ediv value divisor hd, floorDiv64, floorDiv]
  congr 1
  split <;> split <;> omega

/-- Chunk coordinates divide by the chunk edge. -/
@[simp] theorem floorDiv_sixteen (value : ℤ) : floorDiv value 16 = value / 16 :=
  floorDiv_eq_ediv value 16 (by decide)

@[simp] theorem floorMod_sixteen (value : ℤ) : floorMod value 16 = value % 16 :=
  floorMod_eq_emod value 16 (by decide)

@[simp] theorem floorDiv64_sixteen (value : ℤ) : floorDiv64 value 16 = value / 16 :=
  floorDiv64_eq_ediv value 16 (by decide)

@[simp] theorem floorMod64_sixteen (value : ℤ) : floorMod64 value 16 = value % 16 := by
  rw [floorMod64, floorDiv64_sixteen, Int.emod_def, Int.mul_comm]

end WaterStructure
