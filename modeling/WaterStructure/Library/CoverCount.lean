import Mathlib.Algebra.BigOperators.Group.Multiset.Basic
import Mathlib.Data.Set.Card

/-!
# Counting what records cover

Records cover cells, and each has a number that is counted for it. The sum of the numbers is the number
of covered cells exactly when no cell is covered twice, provided each record counts its cells.
-/

namespace CoverCount

variable {ρ κ : Type*}

/-- The cells that some record covers. -/
def covered (cells : ρ → List κ) (records : List ρ) : Set κ :=
  {cell | ∃ record ∈ records, cell ∈ cells record}

/-- Adding up along a list. -/
theorem foldl_count {step : ℕ → ρ → ℕ} {weight : ρ → ℕ}
    (h : ∀ count record, step count record = count + weight record) (count : ℕ) (records : List ρ) :
    records.foldl step count = count + (records.map weight).sum := by
  induction records generalizing count with
  | nil => rfl
  | cons record rest ih => rw [List.foldl_cons, ih, h, List.map_cons, List.sum_cons, Nat.add_assoc]

/-- A table adds up to the same number by rows and by columns. -/
theorem sum_rows_eq_sum_columns (weight : ρ → κ → ℕ) (rows : List ρ) (columns : List κ) :
    (rows.map fun row => (columns.map (weight row)).sum).sum =
      (columns.map fun column => (rows.map fun row => weight row column).sum).sum :=
  Multiset.sum_map_sum_map (rows : Multiset ρ) (columns : Multiset κ)

theorem covered_eq_coe [DecidableEq κ] (cells : ρ → List κ) (records : List ρ) :
    covered cells records = ((records.flatMap cells).toFinset : Set κ) := by
  ext cell
  rw [List.coe_toFinset]
  exact List.mem_flatMap.symm

/-- The cells are as many as are covered, if none is covered twice, and fewer otherwise. -/
theorem sum_eq_ncard_covered_iff (cells : ρ → List κ) (records : List ρ) :
    (records.map fun record => (cells record).length).sum = (covered cells records).ncard ↔
      (records.flatMap cells).Nodup := by
  classical
  rw [covered_eq_coe, Set.ncard_coe_finset, ← List.length_flatMap, eq_comm]
  exact Multiset.toFinset_card_eq_card_iff_nodup (m := Multiset.ofList (records.flatMap cells))

/-- A number that was counted over records, and a set of cells that they cover. -/
structure Counts (records : List ρ) (counted : ρ → ℕ) (cells : ρ → List κ) (count : ℕ)
    (reported : Set κ) : Prop where
  count_eq : count = (records.map counted).sum
  reported_eq : reported = covered cells records

variable {records : List ρ} {counted : ρ → ℕ} {cells : ρ → List κ} {count : ℕ} {reported : Set κ}

/-- Where each record counts its cells, the number is right exactly if no cell is covered twice. -/
theorem Counts.eq_ncard_iff (h : Counts records counted cells count reported)
    (hcounted : ∀ record ∈ records, counted record = (cells record).length) :
    count = reported.ncard ↔ (records.flatMap cells).Nodup := by
  rw [h.count_eq, h.reported_eq, List.map_congr_left hcounted]
  exact sum_eq_ncard_covered_iff cells records

end CoverCount
