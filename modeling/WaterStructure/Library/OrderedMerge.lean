import Mathlib.Data.List.Basic
import Mathlib.Order.Basic

/-!
# Merging two parts of an ordered list

When an increasing list is split in two by predicates that never hold together, merging the two
parts by comparing their heads gives back the elements that belong to either part, in the
original order.
-/

namespace OrderedMerge

variable {α : Type*} [Preorder α] [DecidableLT α]

/-- Take the smaller head first; of equal heads the second list's. -/
def merge : List α → List α → List α
  | [], second => second
  | a :: first, [] => a :: first
  | a :: first, b :: second =>
    if a < b then a :: merge first (b :: second) else b :: merge (a :: first) second
  termination_by first second => first.length + second.length

@[simp] theorem merge_nil (first : List α) : merge first [] = first := by
  cases first <;> simp [merge]

/-- A head below all of the second list comes first. -/
theorem merge_cons_left {a : α} {first second : List α} (h : ∀ b ∈ second, a < b) :
    merge (a :: first) second = a :: merge first second := by
  cases second with
  | nil => simp
  | cons b second => rw [merge, if_pos (h b List.mem_cons_self)]

/-- A head below all of the first list comes first. -/
theorem merge_cons_right {b : α} {first second : List α} (h : ∀ a ∈ first, b < a) :
    merge first (b :: second) = b :: merge first second := by
  cases first with
  | nil => simp [merge]
  | cons a first => rw [merge, if_neg (lt_asymm (h a List.mem_cons_self))]

/-- Merging two disjoint parts of an increasing list. -/
theorem merge_filter {items : List α} (hsorted : items.Pairwise (· < ·)) {p q : α → Bool}
    (hdisjoint : ∀ a ∈ items, ¬ (p a = true ∧ q a = true)) :
    merge (items.filter p) (items.filter q) = items.filter fun a => p a || q a := by
  induction items with
  | nil => simp
  | cons a rest ih =>
    obtain ⟨hhead, htail⟩ := List.pairwise_cons.mp hsorted
    have hrest := ih htail fun b hb => hdisjoint b (List.mem_cons_of_mem a hb)
    have hnot := hdisjoint a List.mem_cons_self
    have habove (keep : α → Bool) : ∀ b ∈ rest.filter keep, a < b := fun b hb =>
      hhead b (List.mem_of_mem_filter hb)
    cases hp : p a with
    | true =>
      have hq : q a = false := by simpa [hp] using hnot
      rw [List.filter_cons_of_pos hp, List.filter_cons_of_neg (by simp [hq]),
        List.filter_cons_of_pos (by simp [hp]), merge_cons_left (habove q), hrest]
    | false =>
      cases hq : q a with
      | true =>
        rw [List.filter_cons_of_neg (by simp [hp]), List.filter_cons_of_pos hq,
          List.filter_cons_of_pos (by simp [hq]), merge_cons_right (habove p), hrest]
      | false =>
        rw [List.filter_cons_of_neg (by simp [hp]), List.filter_cons_of_neg (by simp [hq]),
          List.filter_cons_of_neg (by simp [hp, hq]), hrest]

end OrderedMerge
