import WaterStructure.Formats.CuboidCommand

/-!
# Counts of records

Several readers report the number of blocks of their records, as the original program does: the extent
of a box along an axis is the distance of its corners and one, without its sign, so that a box with its
corners in reverse counts less. The numbers stay at the largest one of their type.
-/

namespace WaterStructure

/-- The extent of a box between two corners as it is counted. -/
def goSpan (first second : ℤ) : ℕ := (second - first + 1).natAbs

def saturatingMultiply (left right : ℕ) : ℕ :=
  if left = 0 ∨ right = 0 then 0
  else if left > uint64Max / right then uint64Max
  else left * right

def saturatingAdd (left right : ℕ) : ℕ :=
  if left > uint64Max - right then uint64Max else left + right

/-- The number of blocks counted for a box. -/
def countedVolume (first second : BlockPos) : ℕ :=
  saturatingMultiply (saturatingMultiply (goSpan first.x second.x) (goSpan first.y second.y))
    (goSpan first.z second.z)

/-- The number of blocks of a box, with the extents as they are counted. -/
def spanVolume (first second : BlockPos) : ℕ :=
  goSpan first.x second.x * goSpan first.y second.y * goSpan first.z second.z

theorem saturatingMultiply_eq (left right : ℕ) :
    saturatingMultiply left right = min (left * right) uint64Max := by
  rw [saturatingMultiply]
  split
  case isTrue hzero =>
    have hproduct : left * right = 0 := Nat.mul_eq_zero.mpr hzero
    rw [hproduct, Nat.zero_min]
  case isFalse hzero =>
    have hpositive : 0 < right := Nat.pos_of_ne_zero fun h => hzero (.inr h)
    split_ifs with hfits
    · have := (Nat.div_lt_iff_lt_mul hpositive).mp hfits
      omega
    · have := (Nat.le_div_iff_mul_le hpositive).mp (not_lt.mp hfits)
      omega

theorem saturatingAdd_eq {left right : ℕ} (h : right ≤ uint64Max) :
    saturatingAdd left right = min (left + right) uint64Max := by
  rw [saturatingAdd]
  split <;> omega

theorem countedVolume_eq (first second : BlockPos) :
    countedVolume first second = min (spanVolume first second) uint64Max := by
  rw [countedVolume, saturatingMultiply_eq, saturatingMultiply_eq, spanVolume]
  by_cases hz : goSpan first.z second.z = 0
  · rw [hz, Nat.mul_zero, Nat.mul_zero]
  · by_cases hsmall : goSpan first.x second.x * goSpan first.y second.y ≤ uint64Max
    · rw [Nat.min_eq_left hsmall]
    · have hlarge := (not_le.mp hsmall).le
      rw [Nat.min_eq_right hlarge,
        Nat.min_eq_right (Nat.le_mul_of_pos_right _ (Nat.pos_of_ne_zero hz)),
        Nat.min_eq_right (hlarge.trans (Nat.le_mul_of_pos_right _ (Nat.pos_of_ne_zero hz)))]

theorem goSpan_of_le {first second : ℤ} (h : first ≤ second) :
    (goSpan first second : ℤ) = second - first + 1 := by
  rw [goSpan]
  omega

end WaterStructure
