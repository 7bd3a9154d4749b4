import Mathlib.Data.List.Basic
import Mathlib.Order.Lattice

/-!
# The running best

A loop keeps the item with the least key, the earliest of equals. Which key it ends with does not depend on
the order of the items.
-/

namespace RunningBest

variable {α κ : Type*} [LinearOrder κ] (key : α → κ)

/-- One turn of the loop. -/
def step (best : Option α) (item : α) : Option α :=
  match best with
  | none => some item
  | some old => some (if key item < key old then item else old)

def best (items : List α) : Option α := items.foldl (step key) none

variable {key}

/-- What a loop leaves that has begun with some item. -/
theorem foldl_step (items : List α) (old : α) :
    ∃ found, items.foldl (step key) (some old) = some found ∧ (found = old ∨ found ∈ items) ∧
      key found ≤ key old ∧ ∀ item ∈ items, key found ≤ key item := by
  induction items generalizing old with
  | nil => exact ⟨old, rfl, .inl rfl, le_refl _, nofun⟩
  | cons item rest ih =>
    rw [List.foldl_cons, step]
    by_cases hlt : key item < key old
    · rw [if_pos hlt]
      obtain ⟨found, hfound, hmem, hle, hall⟩ := ih item
      refine ⟨found, hfound, .inr ?_, hle.trans (le_of_lt hlt), List.forall_mem_cons.mpr ⟨hle, hall⟩⟩
      exact hmem.elim (fun heq => heq ▸ List.mem_cons_self) (List.mem_cons_of_mem item)
    · rw [if_neg hlt]
      obtain ⟨found, hfound, hmem, hle, hall⟩ := ih old
      refine ⟨found, hfound, hmem.imp id (List.mem_cons_of_mem item), hle, ?_⟩
      exact List.forall_mem_cons.mpr ⟨hle.trans (le_of_not_gt hlt), hall⟩

/-- The loop ends with an item of least key. -/
theorem exists_best {items : List α} (hne : items ≠ []) :
    ∃ found ∈ items, best key items = some found ∧ ∀ item ∈ items, key found ≤ key item := by
  obtain ⟨first, rest, rfl⟩ := List.exists_cons_of_ne_nil hne
  obtain ⟨found, hfound, hmem, hle, hall⟩ := @foldl_step _ _ _ key rest first
  refine ⟨found, ?_, hfound, List.forall_mem_cons.mpr ⟨hle, hall⟩⟩
  exact hmem.elim (fun heq => heq ▸ List.mem_cons_self) (List.mem_cons_of_mem first)

/-- With a key for each item the order of the items does not matter. -/
theorem best_perm (hinj : Function.Injective key) {items items' : List α} (h : items.Perm items') :
    best key items = best key items' := by
  by_cases hnil : items = []
  · subst hnil
    rw [List.nil_perm.mp h]
  · obtain ⟨found, hmem, hfound, hall⟩ := @exists_best _ _ _ key _ hnil
    obtain ⟨found', hmem', hfound', hall'⟩ :=
      @exists_best _ _ _ key _ fun hnil' => hnil (List.perm_nil.mp (hnil' ▸ h))
    have hsame := hinj (le_antisymm (hall found' (h.mem_iff.mpr hmem')) (hall' found (h.mem_iff.mp hmem)))
    rw [hfound, hfound', hsame]

end RunningBest
