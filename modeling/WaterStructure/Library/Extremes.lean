import Mathlib.Order.Bounds.Basic
import Mathlib.Order.OrderDual
import Mathlib.Order.MinMax

/-!
# The extremes of a list

A loop that starts with a value beyond all items and takes the smaller or the larger value at each turn
ends with the least or the greatest item.
-/

namespace Extremes

variable {α : Type*} [LinearOrder α]

theorem foldl_min_le_start (items : List α) (start : α) : items.foldl min start ≤ start := by
  induction items generalizing start with
  | nil => exact le_rfl
  | cons item rest ih => exact (ih _).trans (min_le_left _ _)

theorem foldl_min_le {items : List α} {item : α} (h : item ∈ items) (start : α) :
    items.foldl min start ≤ item := by
  induction items generalizing start with
  | nil => cases h
  | cons first rest ih =>
    rcases List.mem_cons.mp h with rfl | hrest
    · exact (foldl_min_le_start rest _).trans (min_le_right _ _)
    · exact ih hrest _

variable {items first second : List α} {low high : α}

theorem le_foldl_max {item : α} (h : item ∈ items) (start : α) : item ≤ items.foldl max start :=
  @foldl_min_le αᵒᵈ _ items item h start

theorem foldl_min_mem (items : List α) (start : α) :
    items.foldl min start = start ∨ items.foldl min start ∈ items := by
  induction items generalizing start with
  | nil => exact .inl rfl
  | cons item rest ih =>
    rw [List.foldl_cons]
    rcases ih (min start item) with heq | hmem
    · rw [heq]
      rcases min_choice start item with hmin | hmin
      · exact .inl hmin
      · rw [hmin]
        exact .inr List.mem_cons_self
    · exact .inr (List.mem_cons_of_mem _ hmem)

/-- The order of the items does not matter, nor how often they occur. -/
theorem foldl_min_congr {first second : List α} (h : ∀ item, item ∈ first ↔ item ∈ second) (start : α) :
    first.foldl min start = second.foldl min start := by
  have hle {first second : List α} (h : ∀ item ∈ second, item ∈ first) :
      first.foldl min start ≤ second.foldl min start := by
    rcases foldl_min_mem second start with heq | hmem
    · rw [heq]
      exact foldl_min_le_start first start
    · exact foldl_min_le (h _ hmem) start
  exact le_antisymm (hle fun item hitem => (h item).mpr hitem) (hle fun item hitem => (h item).mp hitem)

theorem foldl_max_congr (h : ∀ item, item ∈ first ↔ item ∈ second) (start : α) :
    first.foldl max start = second.foldl max start :=
  @foldl_min_congr αᵒᵈ _ first second h start

/-- The loop finds the least item. -/
theorem isLeast_foldl_min {items : List α} (hne : items ≠ []) {start : α} (h : ∀ item ∈ items, item ≤ start) :
    IsLeast {item | item ∈ items} (items.foldl min start) := by
  refine ⟨?_, fun item hitem => foldl_min_le hitem start⟩
  rcases foldl_min_mem items start with heq | hmem
  · obtain ⟨item, rest, rfl⟩ := List.exists_cons_of_ne_nil hne
    have hle := foldl_min_le (List.mem_cons_self : item ∈ item :: rest) start
    have hsame : List.foldl min start (item :: rest) = item :=
      le_antisymm hle ((h item List.mem_cons_self).trans heq.ge)
    rw [hsame]
    exact List.mem_cons_self
  · exact hmem

/-- The loop finds the greatest item. -/
theorem isGreatest_foldl_max (hne : items ≠ []) {start : α} (h : ∀ item ∈ items, start ≤ item) :
    IsGreatest {item | item ∈ items} (items.foldl max start) :=
  @isLeast_foldl_min αᵒᵈ _ items hne start h

/-- The ends of the range that some items take. -/
structure Extent (items : List α) (low high : α) : Prop where
  least : low ∈ items
  greatest : high ∈ items
  between : ∀ item ∈ items, low ≤ item ∧ item ≤ high

theorem Extent.singleton (item : α) : Extent [item] item item :=
  ⟨List.mem_singleton_self _, List.mem_singleton_self _, fun other hother => by
    rw [List.mem_singleton.mp hother]
    exact ⟨le_rfl, le_rfl⟩⟩

theorem Extent.le (h : Extent items low high) : low ≤ high :=
  (h.between low h.least).2

theorem Extent.append {low' high' : α} (h : Extent first low high) (h' : Extent second low' high') :
    Extent (first ++ second) (min low low') (max high high') where
  least := by
    rcases min_choice low low' with hmin | hmin
    · rw [hmin]
      exact List.mem_append_left _ h.least
    · rw [hmin]
      exact List.mem_append_right _ h'.least
  greatest := by
    rcases max_choice high high' with hmax | hmax
    · rw [hmax]
      exact List.mem_append_left _ h.greatest
    · rw [hmax]
      exact List.mem_append_right _ h'.greatest
  between := fun item hitem => by
    rcases List.mem_append.mp hitem with hmem | hmem
    · have hitem := h.between item hmem
      exact ⟨(min_le_left _ _).trans hitem.1, hitem.2.trans (le_max_left _ _)⟩
    · have hitem := h'.between item hmem
      exact ⟨(min_le_right _ _).trans hitem.1, hitem.2.trans (le_max_right _ _)⟩

/-- The ends are enough to find them again. -/
theorem Extent.ends (h : Extent items low high) : Extent items (min low high) (max low high) := by
  rw [min_eq_left h.le, max_eq_right h.le]
  exact h

/-- The ends are enough to extend another range. -/
theorem Extent.append_ends {low' high' : α} (h : Extent first low high) (h' : Extent second low' high') :
    Extent (first ++ second) (min (min low low') high') (max (max high low') high') := by
  rw [min_assoc, max_assoc]
  exact h.append h'.ends

theorem Extent.map {β : Type*} [LinearOrder β] {items : List α} {low high : α} (h : Extent items low high)
    {f : α → β} (hf : ∀ first second, first ≤ second → f first ≤ f second) :
    Extent (items.map f) (f low) (f high) where
  least := List.mem_map_of_mem h.least
  greatest := List.mem_map_of_mem h.greatest
  between := fun image himage => by
    obtain ⟨item, hitem, rfl⟩ := List.mem_map.mp himage
    exact ⟨hf _ _ (h.between item hitem).1, hf _ _ (h.between item hitem).2⟩

end Extremes
