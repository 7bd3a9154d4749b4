import Mathlib.Algebra.Order.Group.Unbundled.Int
import Mathlib.Data.List.Basic

/-!
# Cutting an interval into strips

`for (v = low; v <= high; v += edge)` cuts an interval into strips of at most `edge` values, the
last one clipped. Every value of the interval lies in exactly one strip.
-/

namespace Strips

/-- The strips from `low` to `high`, as pairs of the first and the last value. -/
def strips (edge : ℤ) (hedge : 0 < edge) (low high : ℤ) : List (ℤ × ℤ) :=
  if low ≤ high then (low, min high (low + edge - 1)) :: strips edge hedge (low + edge) high
  else []
  termination_by (high + 1 - low).toNat

variable {edge : ℤ} {hedge : 0 < edge}

/-- Strips are not empty, stay inside the interval and have at most `edge` values. -/
theorem strips_bounds {low high : ℤ} {strip : ℤ × ℤ} (h : strip ∈ strips edge hedge low high) :
    low ≤ strip.1 ∧ strip.1 ≤ strip.2 ∧ strip.2 ≤ high ∧ strip.2 < strip.1 + edge := by
  fun_induction strips edge hedge low high with
  | case1 low hle ih =>
    rcases List.mem_cons.mp h with rfl | hrest
    · simp only
      omega
    · have := ih hrest
      omega
  | case2 => cases h

/-- Every value of the interval lies in exactly one strip. -/
theorem countP_strips (edge : ℤ) (hedge : 0 < edge) (low high v : ℤ) :
    (strips edge hedge low high).countP (fun strip => strip.1 ≤ v ∧ v ≤ strip.2) =
      if low ≤ v ∧ v ≤ high then 1 else 0 := by
  fun_induction strips edge hedge low high with
  | case1 low hle ih =>
    rw [List.countP_cons, ih]
    by_cases hfirst : v < low + edge
    · by_cases hin : low ≤ v ∧ v ≤ high
      · have hnow : low ≤ v ∧ v ≤ min high (low + edge - 1) := by omega
        have hlater : ¬ (low + edge ≤ v ∧ v ≤ high) := by omega
        rw [if_neg hlater, if_pos hin, if_pos (decide_eq_true hnow)]
      · have hnow : ¬ (low ≤ v ∧ v ≤ min high (low + edge - 1)) := by omega
        have hlater : ¬ (low + edge ≤ v ∧ v ≤ high) := by omega
        rw [if_neg hlater, if_neg hin, decide_eq_false hnow]
        rfl
    · have hnow : ¬ (low ≤ v ∧ v ≤ min high (low + edge - 1)) := by omega
      have hsame : (low + edge ≤ v ∧ v ≤ high) ↔ (low ≤ v ∧ v ≤ high) := by omega
      simp only [hnow, decide_false, hsame]
      simp
  | case2 low hgt =>
    rw [if_neg (by omega)]
    rfl

/-- The strips by number. -/
theorem strips_eq_map (edge : ℤ) (hedge : 0 < edge) (low high : ℤ) :
    strips edge hedge low high = (List.range ((high - low) / edge + 1).toNat).map fun k : ℕ =>
      (low + k * edge, min high (low + k * edge + edge - 1)) := by
  fun_induction strips edge hedge low high with
  | case1 low hle ih =>
    have hcount : (high - low) / edge + 1 = (high - (low + edge)) / edge + 1 + 1 := by
      have hshift := Int.add_mul_ediv_right (high - (low + edge)) 1 (Int.ne_of_gt hedge)
      rw [Int.one_mul, show high - (low + edge) + edge = high - low by omega] at hshift
      omega
    have hnonneg : 0 ≤ (high - low) / edge := Int.ediv_nonneg (by omega) (by omega)
    have hlength : ((high - low) / edge + 1).toNat = ((high - (low + edge)) / edge + 1).toNat + 1 := by
      omega
    rw [ih, hlength, List.range_succ_eq_map, List.map_cons, List.map_map]
    congr 1
    · simp
    · apply List.map_congr_left
      intro k _
      have hstep : low + edge + (k : ℤ) * edge = low + ((k + 1 : ℕ) : ℤ) * edge := by
        rw [Int.natCast_add, Int.add_mul]
        omega
      simp only [Function.comp_apply, Nat.succ_eq_add_one, ← hstep]
  | case2 low hgt =>
    have hneg : (high - low) / edge < 0 := Int.ediv_neg_of_neg_of_pos (by omega) hedge
    rw [show ((high - low) / edge + 1).toNat = 0 by omega]
    rfl

end Strips
