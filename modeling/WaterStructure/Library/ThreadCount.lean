import Mathlib.Data.Fintype.Card

/-!
# Counting the threads that are in a phase

Each thread of a finite set is in a phase. A flag that a thread raises when it enters a group of phases
and lowers when it leaves it, or a counter of the threads in the group, is tied to the threads by the
number of those that are in it.
-/

namespace ThreadCount

variable {Thread Phase : Type} [Fintype Thread]

/-- How many threads are in a group of phases. -/
def count (group : Phase → Bool) (phase : Thread → Phase) : ℕ :=
  (Finset.univ.filter fun thread => group (phase thread) = true).card

variable {group : Phase → Bool} {phase : Thread → Phase}

/-- When one thread moves on, only its own contribution changes. -/
theorem count_update [DecidableEq Thread] (group : Phase → Bool) (phase : Thread → Phase)
    (thread : Thread) (next : Phase) :
    count group (Function.update phase thread next) + (group (phase thread)).toNat =
      count group phase + (group next).toNat := by
  have hsplit (phase : Thread → Phase) : count group phase =
      ((Finset.univ.erase thread).filter fun other => group (phase other) = true).card +
        (group (phase thread)).toNat := by
    rw [count, ← Finset.insert_erase (Finset.mem_univ thread), Finset.filter_insert]
    have hnot : thread ∉ (Finset.univ.erase thread).filter fun other => group (phase other) = true := by
      simp
    split_ifs with h
    · rw [Finset.card_insert_of_notMem hnot, Finset.erase_insert (by simp), h]; rfl
    · rw [Finset.erase_insert (by simp), Bool.eq_false_iff.mpr h]; rfl
  have hrest : ((Finset.univ.erase thread).filter fun other =>
      group (Function.update phase thread next other) = true) =
        (Finset.univ.erase thread).filter fun other => group (phase other) = true := by
    refine Finset.filter_congr fun other hother => ?_
    rw [Function.update_of_ne (Finset.ne_of_mem_erase hother)]
  rw [hsplit (Function.update phase thread next), hsplit phase, hrest, Function.update_self]
  omega

theorem count_pos_iff : 0 < count group phase ↔ ∃ thread, group (phase thread) = true := by
  rw [count, Finset.card_pos]
  simp [Finset.Nonempty]

theorem count_eq_zero_iff : count group phase = 0 ↔ ∀ thread, group (phase thread) = false := by
  rw [count, Finset.card_eq_zero, Finset.filter_eq_empty_iff]
  simp

/-- If at most one thread is in the group, two that are in it are the same. -/
theorem eq_of_count_le_one (h : count group phase ≤ 1) {thread other : Thread}
    (hthread : group (phase thread) = true) (hother : group (phase other) = true) : thread = other :=
  Finset.card_le_one.mp h thread (by simpa using hthread) other (by simpa using hother)

end ThreadCount
