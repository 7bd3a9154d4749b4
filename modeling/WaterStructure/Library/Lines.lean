import Mathlib.Data.List.Basic

/-!
# The lines of a text

A text is cut behind every newline, and what follows the last newline is a line unless it is
empty. A text that ends with a newline can be cut apart from what follows it.
-/

namespace Lines

variable {α : Type*} [DecidableEq α] (newline : α)

/-- The lines of a text, of which `current` is the part of the first line that has been seen. -/
def linesFrom : List α → List α → List (List α)
  | current, [] => if current.isEmpty then [] else [current]
  | current, c :: rest =>
    if c = newline then current :: linesFrom [] rest else linesFrom (current ++ [c]) rest

def split (text : List α) : List (List α) := linesFrom newline [] text

variable {newline}

/-- Characters of a line join what has been seen of it. -/
theorem linesFrom_append {first : List α} (h : newline ∉ first) (current rest : List α) :
    linesFrom newline current (first ++ rest) = linesFrom newline (current ++ first) rest := by
  induction first generalizing current with
  | nil => rw [List.nil_append, List.append_nil]
  | cons c first ih =>
    rw [List.mem_cons, not_or] at h
    rw [List.cons_append, linesFrom, if_neg (Ne.symm h.1), ih h.2, List.append_assoc]
    rfl

/-- What follows a newline does not change the lines before it. -/
theorem linesFrom_append_newline (current first rest : List α) :
    linesFrom newline current (first ++ newline :: rest) =
      linesFrom newline current (first ++ [newline]) ++ split newline rest := by
  induction first generalizing current with
  | nil =>
    rw [List.nil_append, List.nil_append, linesFrom, linesFrom, if_pos rfl, if_pos rfl]
    rfl
  | cons c first ih =>
    rw [List.cons_append, List.cons_append, linesFrom, linesFrom]
    split
    · rw [ih, List.cons_append]
    · exact ih _

/-- A text that ends with a newline is cut on its own. -/
theorem split_append {complete : List α} (hne : complete ≠ [])
    (hlast : complete.getLast hne = newline) (rest : List α) :
    split newline (complete ++ rest) = split newline complete ++ split newline rest := by
  have hsplit := List.dropLast_append_getLast hne
  rw [hlast] at hsplit
  rw [← hsplit, List.append_assoc, List.singleton_append]
  exact linesFrom_append_newline [] _ rest

/-- A part without a newline lies in one line. -/
theorem exists_line {part : List α} (h : newline ∉ part) (hne : part ≠ []) (rest : List α) :
    ∃ line ∈ split newline (part ++ rest), part.length ≤ line.length := by
  rw [split, linesFrom_append h, List.nil_append]
  clear h
  induction rest generalizing part with
  | nil =>
    rw [linesFrom, if_neg (by rwa [List.isEmpty_iff])]
    exact ⟨part, List.mem_singleton_self part, Nat.le_refl _⟩
  | cons c rest ih =>
    rw [linesFrom]
    split
    · exact ⟨part, List.mem_cons_self, Nat.le_refl _⟩
    · have hnext : part ++ [c] ≠ [] := List.append_ne_nil_of_right_ne_nil _ (List.cons_ne_nil _ _)
      obtain ⟨line, hline, hlength⟩ := ih hnext
      refine ⟨line, hline, ?_⟩
      rw [List.length_append] at hlength
      omega

end Lines
